import Mathlib.Tactic.Common
import Mtproto.Proofs.Agreement
import Mtproto.Proofs.Lifecycle
import Mtproto.Proofs.StrongLiars

/-!
# A server that misbehaves is caught

`SimulatedServer` can be told to misbehave in one way (`Tamper`).  A client that is driven against
it goes on as long as the answers are right, and gives up at the first one that is not, with the
error that belongs to the way in which it is wrong (`Tamper.error?`).  That it is this error and no
other is a matter of order: everything that is checked before has to be in order, for all tapes.

`converse` is the conversation of the two, in which each side reads a clock of its own every time;
`Dialogue.run` is the case in which one reading stands for all (`roundsFrom_eq_converse`).
`CaughtWith` says how such a conversation ends, and that the client has no result before or after.

* `caught_of_tamper`: one lemma for each of the three answers, put together.
* `strongLiars_of_done`: one way to misbehave is not always found out.  A composite modulus is
  refused unless it passes the test for primes, and it passes only if every base that is drawn for
  the test is a strong liar.
* `misbehaviour_caught`: all ways to misbehave.
-/

namespace Mtproto

open Wire

/-! ## 1. Ways to misbehave -/

/-- The error that a way to misbehave leads to; a composite modulus need not lead to any. -/
def Tamper.error? : Tamper → Option Error
  | .none | .compositePrime => Option.none
  | .resPqNonce => some .badNonce
  | .fingerprint => some .fingerprintMismatch
  | .dhParamsFail => some .dhParamsFail
  | .innerServerNonce => some .badServerNonce
  | .answerHash => some .hashMismatch
  | .newNonceHash => some .badNewNonceHash
  | .dhGenRetry => some .dhGenRetry
  | .dhGenFail => some .dhGenFail

/-- The answer that is wrong; without misbehaviour none of the three is. -/
def Tamper.round : Tamper → Nat
  | .resPqNonce | .fingerprint => 1
  | .dhParamsFail | .innerServerNonce | .answerHash | .compositePrime => 2
  | .newNonceHash | .dhGenRetry | .dhGenFail => 3
  | .none => 4

section Cases

variable {t : Tamper} {error : Error}

theorem Tamper.cases_first (hround : t.round = 1) (herror : t.error? = some error) :
    (t = .resPqNonce ∧ error = .badNonce) ∨ (t = .fingerprint ∧ error = .fingerprintMismatch) := by
  cases t <;> cases hround <;> cases herror <;> simp

theorem Tamper.cases_second (hround : t.round = 2) (herror : t.error? = some error) :
    (t = .dhParamsFail ∧ error = .dhParamsFail) ∨
    (t = .innerServerNonce ∧ error = .badServerNonce) ∨
    (t = .answerHash ∧ error = .hashMismatch) := by
  cases t <;> cases hround <;> cases herror <;> simp

theorem Tamper.cases_third (hround : t.round = 3) (herror : t.error? = some error) :
    (t = .newNonceHash ∧ error = .badNewNonceHash) ∨ (t = .dhGenRetry ∧ error = .dhGenRetry) ∨
    (t = .dhGenFail ∧ error = .dhGenFail) := by
  cases t <;> cases hround <;> cases herror <;> simp

theorem Tamper.round_of_error (herror : t.error? = some error) :
    t.round = 1 ∨ t.round = 2 ∨ t.round = 3 := by
  cases t <;> cases herror <;> simp [round]

/-- What is wrong in one answer is right in the others. -/
theorem Tamper.ne_of_round {t' : Tamper} (h : t.round ≠ t'.round) : t ≠ t' :=
  fun heq => h (congrArg round heq)

end Cases

namespace SimulatedServer

theorem flip_ne {n : Nat} (v : Octets n) {i : Nat} (hi : i < n) {mask : UInt8} (hmask : mask ≠ 0) :
    flip v i mask ≠ v := by
  intro heq
  have hlength : i < v.bytes.length := by rwa [v.length_bytes]
  have hbyte : (v.bytes.modify i (· ^^^ mask))[i]? = v.bytes[i]? :=
    congrArg (fun w : Octets n => w.bytes[i]?) heq
  rw [List.getElem?_modify, List.getElem?_eq_getElem hlength] at hbyte
  simp only [if_true, Option.map_eq_map, Option.map_some, Option.some.injEq] at hbyte
  have hcancel := congrArg (v.bytes[i] ^^^ ·) hbyte
  simp only [← UInt8.xor_assoc, UInt8.xor_self, UInt8.zero_xor] at hcancel
  exact hmask hcancel

end SimulatedServer

/-! ## 2. What the client refuses -/

namespace KeyExchange

open SimulatedServer

variable {kx : KeyExchange} {e : Entropy} {now : Instant} {reply : Bytes}

/-- A key by which nobody goes is not found. -/
theorem trustedKey_of_stranger {fingerprint : UInt64}
    (h : ∀ k ∈ kx.keys, k.fingerprint ≠ fingerprint) : kx.trustedKey [fingerprint] = none := by
  refine List.find?_eq_none.mpr fun k hk => ?_
  simpa using h k hk

/-- A challenge to somebody else is refused first of all. -/
theorem onResPq_otherNonce (kx : KeyExchange) {res : ResPq} (h : res.nonce ≠ kx.nonce) :
    onResPq res (kx, e) = (.error (.error .badNonce), kx, e) := by
  rw [onResPq, Act.state_bind, if_pos h]
  rfl

/-- A challenge under keys that are not trusted is refused next. -/
theorem onResPq_stranger (kx : KeyExchange) {res : ResPq} (hnonce : res.nonce = kx.nonce)
    (h : kx.trustedKey res.fingerprints = none) :
    onResPq res (kx, e) = (.error (.error .fingerprintMismatch), kx, e) := by
  rw [onResPq, Act.state_bind, if_neg (not_not_intro hnonce)]
  simp only [h]
  rfl

/-- A text that is not the one of the digest is refused, whatever it holds. -/
theorem answerOf_of_digest_ne {text pad hash : Bytes} {inner : ServerDhInnerData}
    (hread : Reads (Read.exactBoxed ServerDhInnerData) text (some inner))
    (h : (sha1 text).bytes ≠ hash) : answerOf (text ++ pad) hash = .error .hashMismatch := by
  have hrun : Read.exactBoxed ServerDhInnerData (.ofBytes (text ++ pad)) =
      (some inner, ⟨text.reverse, pad, none⟩) := by
    have := hread [] pad
    rwa [List.append_nil] at this
  have hcheck : Reader.check ⟨text.reverse, pad, none⟩ = .ok () := rfl
  have hconsumed : Reader.consumed ⟨text.reverse, pad, none⟩ = text := List.reverse_reverse text
  unfold answerOf
  simp only [hrun, hcheck, hconsumed, DecodeError.lift_ok, ne_eq, h, not_false_eq_true, if_true]
  rfl

section Params

variable {digest : Bytes → Octets 20} {params : ServerDhInnerData}

/-- What the client has before it when parameters arrive. -/
theorem onDhParamsOk_brought
    (h : BringsParams kx.nonce kx.serverNonce kx.newNonce digest params reply) :
    ∃ ok answer pad, ofBoxedBytes HandshakeResponse reply = .ok (.serverDhParamsOk ok) ∧
      kx.checkNonces ok.nonce ok.serverNonce = .ok () ∧
      Ige.decryptWithHash (exchangeCipherKey kx.serverNonce kx.newNonce).key.bytes
        (exchangeCipherKey kx.serverNonce kx.newNonce).iv.bytes ok.encryptedAnswer =
          .ok (answer ++ pad, (digest answer).bytes) ∧
      pad.length < 16 ∧ Reads (Read.exactBoxed ServerDhInnerData) answer (some params) := by
  obtain ⟨encryptedAnswer, answer, pad, hback, hdecrypt, hpad, hanswer⟩ := h
  exact ⟨_, answer, pad, hback, checkNonces_eq_ok_iff.mpr ⟨rfl, rfl⟩, hdecrypt, hpad, hanswer⟩

/-- Parameters with a wrong digest are refused. -/
theorem onDhParamsOk_wrongDigest (kx : KeyExchange) (now : Instant)
    (hreply : BringsParams kx.nonce kx.serverNonce kx.newNonce digest params reply)
    (h : ∀ text, digest text ≠ sha1 text) :
    ∃ ok, ofBoxedBytes HandshakeResponse reply = .ok (.serverDhParamsOk ok) ∧
      onDhParamsOk now ok (kx, e) = (.error (.error .hashMismatch), kx, e) := by
  obtain ⟨ok, answer, pad, hback, hchecked, hdecrypt, -, hanswer⟩ := onDhParamsOk_brought hreply
  have hmismatch : answerOf (answer ++ pad) (digest answer).bytes = .error .hashMismatch :=
    answerOf_of_digest_ne hanswer fun heq => h answer (Octets.ext heq.symm)
  refine ⟨ok, hback, ?_⟩
  rw [onDhParamsOk, Act.state_bind]
  simp only [hchecked, hdecrypt, Act.ofExcept_ok_bind, hmismatch]
  rfl

/-- Parameters that name another nonce inside are refused, but only after the digest. -/
theorem onDhParamsOk_otherNonce (kx : KeyExchange) (now : Instant)
    (hreply : BringsParams kx.nonce kx.serverNonce kx.newNonce sha1 params reply)
    (hnonce : params.nonce = kx.nonce) (h : params.serverNonce ≠ kx.serverNonce) :
    ∃ ok, ofBoxedBytes HandshakeResponse reply = .ok (.serverDhParamsOk ok) ∧
      onDhParamsOk now ok (kx, e) = (.error (.error .badServerNonce), kx, e) := by
  obtain ⟨ok, answer, pad, hback, hchecked, hdecrypt, hpad, hanswer⟩ := onDhParamsOk_brought hreply
  have hinner : answerOf (answer ++ pad) (sha1 answer).bytes = .ok params :=
    answerOf_eq_ok_iff.mpr ⟨answer, pad, rfl, hpad, rfl, hanswer⟩
  have hrefused : kx.checkNonces params.nonce params.serverNonce = .error .badServerNonce := by
    rw [checkNonces, if_neg (not_not_intro hnonce), if_pos h]
  refine ⟨ok, hback, ?_⟩
  rw [onDhParamsOk, Act.state_bind]
  simp only [hchecked, hdecrypt, Act.ofExcept_ok_bind, hinner, hrefused]
  rfl

end Params

/-- A refusal that echoes both nonces ends the exchange with its reason. -/
theorem run_refuse (reason : Error) :
    refuse kx.nonce kx.serverNonce reason (kx, e) = (.error (.error reason), kx, e) := by
  have hchecked : kx.checkNonces kx.nonce kx.serverNonce = .ok () :=
    checkNonces_eq_ok_iff.mpr ⟨rfl, rfl⟩
  rw [refuse, Act.state_bind]
  simp only [hchecked]
  rfl

/-- A hash that does not confirm the key is refused. -/
theorem onDhGenOk_wrongHash {answer : DhGenAnswer} {auth : Authorization}
    (hnonces : answer.nonce = kx.nonce ∧ answer.serverNonce = kx.serverNonce)
    (hpending : kx.pending = some auth)
    (h : answer.newNonceHash ≠ newNonceHash kx.newNonce 1 auth.key.auxHash) :
    onDhGenOk answer (kx, e) = (.error (.error .badNewNonceHash), kx, e) := by
  have hchecked := (checkNonces_eq_ok_iff (u := ())).mpr hnonces
  rw [onDhGenOk, Act.state_bind]
  simp only [hchecked, Act.ofExcept_ok_bind, hpending, if_pos h]
  rfl

/-! ## 3. Giving up -/

/-- An answer makes the client give up with an error. -/
def GivesUp (kx : KeyExchange) (e : Entropy) (now : Instant) (reply : Bytes) (error : Error) :
    Prop :=
  ∃ (kx' : KeyExchange) (e' : Entropy),
    handle now reply (kx, e) = (.error (.error error), kx'.abandon error, e')

theorem givesUp_of_dispatch {error : Error} {t : KeyExchange × Entropy}
    (hstate : kx.state ∈ [.reqPq, .reqDhParams, .setClientDhParams])
    (h : dispatch now reply (kx, e) = (.error (.error error), t)) :
    GivesUp kx e now reply error := by
  have hopen : kx.state.isTerminal = false ∧ kx.state ≠ .init := by
    simp only [List.mem_cons, List.not_mem_nil, or_false] at hstate
    rcases hstate with hstate | hstate | hstate <;> simp [hstate, ExchangeState.isTerminal]
  exact ⟨t.1, t.2, by rw [run_handle e now reply hopen.1 hopen.2, h]⟩

theorem givesUp_resPq {res : ResPq} {error : Error} {t : KeyExchange × Entropy}
    (hstate : kx.state = .reqPq)
    (hreply : ofBoxedBytes HandshakeResponse reply = .ok (.resPq res))
    (h : onResPq res (kx, e) = (.error (.error error), t)) : GivesUp kx e now reply error := by
  refine givesUp_of_dispatch (t := t) (by simp [hstate]) ?_
  rw [dispatch, hreply, DecodeError.lift_ok, Act.ofExcept_ok_bind, Act.state_bind]
  simp only [hstate]
  rw [run_bind, h]

theorem givesUp_params {ok : ServerDhParamsOk} {error : Error} {t : KeyExchange × Entropy}
    (hstate : kx.state = .reqDhParams)
    (hreply : ofBoxedBytes HandshakeResponse reply = .ok (.serverDhParamsOk ok))
    (h : onDhParamsOk now ok (kx, e) = (.error (.error error), t)) :
    GivesUp kx e now reply error := by
  refine givesUp_of_dispatch (t := t) (by simp [hstate]) ?_
  rw [dispatch, hreply, DecodeError.lift_ok, Act.ofExcept_ok_bind, Act.state_bind]
  simp only [hstate]
  rw [run_bind, h]

theorem givesUp_refused {v : ServerDhParamsFail} (hstate : kx.state = .reqDhParams)
    (hreply : ofBoxedBytes HandshakeResponse reply = .ok (.serverDhParamsFail v))
    (hnonces : v.nonce = kx.nonce ∧ v.serverNonce = kx.serverNonce) :
    GivesUp kx e now reply .dhParamsFail := by
  refine givesUp_of_dispatch (t := (kx, e)) (by simp [hstate]) ?_
  rw [dispatch, hreply, DecodeError.lift_ok, Act.ofExcept_ok_bind, Act.state_bind]
  simp only [hstate, hnonces]
  exact run_refuse .dhParamsFail

/-- No verdict but the right one is accepted. -/
theorem givesUp_verdict {s : SimulatedServer} {answer : DhGenAnswer} {auth : Authorization}
    {error : Error} (hstate : kx.state = .setClientDhParams)
    (hreply : ofBoxedBytes HandshakeResponse reply = .ok (s.verdict answer))
    (hnonces : answer.nonce = kx.nonce ∧ answer.serverNonce = kx.serverNonce)
    (hpending : kx.pending = some auth) (hnew : s.newNonce = kx.newNonce)
    (hhash : answer.newNonceHash = s.sentHash auth.key)
    (hround : s.tamper.round = 3) (herror : s.tamper.error? = some error) :
    GivesUp kx e now reply error := by
  refine givesUp_of_dispatch (t := (kx, e)) (by simp [hstate]) ?_
  rw [dispatch, hreply, DecodeError.lift_ok, Act.ofExcept_ok_bind, Act.state_bind, verdict]
  rcases Tamper.cases_third hround herror with ⟨hs, rfl⟩ | ⟨hs, rfl⟩ | ⟨hs, rfl⟩
  · have hwrong : answer.newNonceHash ≠ newNonceHash kx.newNonce 1 auth.key.auxHash := by
      rw [hhash, sentHash, if_pos hs, hnew]
      exact flip_ne _ (by decide) (by decide)
    simp only [hs, hstate]
    rw [run_bind, onDhGenOk_wrongHash hnonces hpending hwrong]
  · simp only [hs, hstate, hnonces]
    exact run_refuse .dhGenRetry
  · simp only [hs, hstate, hnonces]
    exact run_refuse .dhGenFail

end KeyExchange

/-! ## 4. Conversations -/

namespace Dialogue

open KeyExchange SimulatedServer

/-- What a call of the client has come to, and the client that it leaves. -/
structure Turn where
  outcome : Except Halt (Option Bytes)
  client : KeyExchange

/-- The calls of the client in a conversation from a request on, for up to `n` answers, and the two
sides at the end.  It goes on as long as the server answers and the client asks; every time each
side reads a clock of its own. -/
def converse (clock : Nat → Instant × Instant) : (n : Nat) → Bytes → Dialogue →
    List Turn × Dialogue
  | 0, _, d => ([], d)
  | n + 1, request, d =>
    match respond (clock 0).1 request d.server with
    | (.error _, server) => ([], { d with server })
    | (.ok reply, server) =>
      match handle (clock 0).2 reply d.client with
      | (.ok (some next), client) =>
        let (turns, d) := converse (fun i => clock (i + 1)) n next { client, server }
        (⟨.ok (some next), client.1⟩ :: turns, d)
      | (outcome, client) => ([⟨outcome, client.1⟩], { client, server })

section Steps

variable {clock : Nat → Instant × Instant} {n : Nat} {request reply next : Bytes} {d : Dialogue}
  {x : KeyExchange × Entropy} {y : SimulatedServer × Entropy}

theorem converse_next (hrespond : respond (clock 0).1 request d.server = (.ok reply, y))
    (hhandle : handle (clock 0).2 reply d.client = (.ok (some next), x)) :
    converse clock (n + 1) request d =
      (⟨.ok (some next), x.1⟩ :: (converse (fun i => clock (i + 1)) n next ⟨x, y⟩).1,
        (converse (fun i => clock (i + 1)) n next ⟨x, y⟩).2) := by
  rw [converse, hrespond]
  simp only [hhandle]

theorem converse_last {halt : Halt}
    (hrespond : respond (clock 0).1 request d.server = (.ok reply, y))
    (hhandle : handle (clock 0).2 reply d.client = (.error halt, x)) :
    converse clock (n + 1) request d = ([⟨.error halt, x.1⟩], ⟨x, y⟩) := by
  rw [converse, hrespond]
  simp only [hhandle]

/-- A call in a conversation is the first one, or one in the conversation that the first one leads
on to. -/
theorem mem_converse {turn : Turn} (h : turn ∈ (converse clock n request d).1) :
    ∃ m reply y outcome x, n = m + 1 ∧ respond (clock 0).1 request d.server = (.ok reply, y) ∧
      handle (clock 0).2 reply d.client = (outcome, x) ∧
      (turn = ⟨outcome, x.1⟩ ∨ ∃ next, outcome = .ok (some next) ∧
        turn ∈ (converse (fun i => clock (i + 1)) m next ⟨x, y⟩).1) := by
  cases n with
  | zero => cases h
  | succ m =>
    rcases hrespond : respond (clock 0).1 request d.server with ⟨halt | reply, y⟩
    · rw [converse, hrespond] at h
      cases h
    · rcases hhandle : handle (clock 0).2 reply d.client with ⟨outcome, x⟩
      refine ⟨m, reply, y, outcome, x, rfl, rfl, hhandle, ?_⟩
      rcases outcome with halt | next | next
      · rw [converse_last hrespond hhandle] at h
        exact Or.inl (List.mem_singleton.mp h)
      · rw [converse, hrespond] at h
        simp only [hhandle] at h
        exact Or.inl (List.mem_singleton.mp h)
      · rw [converse_next hrespond hhandle] at h
        exact (List.mem_cons.mp h).imp_right fun hrest => ⟨next, rfl, hrest⟩

end Steps

/-- The state that a round leads to, if there was an answer. -/
def answered? (round : Round) : Option ExchangeState :=
  match round.reply with
  | .ok _ => some round.state
  | .error _ => none

/-- Where all readings are the same, this is the conversation as it is run. -/
theorem roundsFrom_eq_converse (now : Instant) (n : Nat) (request : Bytes) (d : Dialogue)
    (acc : List Round) :
    (roundsFrom now n request d acc).2 = (converse (fun _ => (now, now)) n request d).2 ∧
    (roundsFrom now n request d acc).1.filterMap answered? = acc.reverse.filterMap answered? ++
      (converse (fun _ => (now, now)) n request d).1.map (·.client.state) := by
  induction n generalizing request d acc with
  | zero => exact ⟨rfl, (List.append_nil _).symm⟩
  | succ n ih =>
    rcases hrespond : respond now request d.server with ⟨halt | reply, y⟩
    · simp [roundsFrom, converse, hrespond, answered?]
    · rcases hhandle : handle now reply d.client with ⟨halt | next | next, x⟩
      · simp [roundsFrom, converse, hrespond, hhandle, answered?]
      · simp [roundsFrom, converse, hrespond, hhandle, answered?]
      · have hnext : converse (fun _ => (now, now)) (n + 1) request d = _ :=
          converse_next hrespond hhandle
        rw [roundsFrom, hrespond]
        simp only [hhandle]
        rw [hnext]
        obtain ⟨hend, hstates⟩ :=
          ih next ⟨x, y⟩ (⟨request, .ok reply, x.1.state⟩ :: acc)
        refine ⟨hend, hstates.trans ?_⟩
        simp [answered?]

/-- The client has been driven to a number of answers, was content with all but the last, and has
given up at the last one, for good.  There never was a result. -/
structure CaughtWith (error : Error) (rounds : Nat) (turns : List Turn) (client : KeyExchange) :
    Prop where
  length : turns.length = rounds
  asked : ∀ turn ∈ turns.dropLast, (∃ next, turn.outcome = .ok (some next)) ∧
    turn.client.result = .error .exchangeNotFinished
  last : turns.getLast? = some ⟨.error (.error error), client⟩
  failed : client.state = .failed
  result : client.result = .error error
  final : ∀ (calls : List Call) (log : Log), (calls.foldl perform (client, log)).1 = client

section Caught

variable {clock : Nat → Instant × Instant} {n rounds : Nat} {request reply next : Bytes}
  {d : Dialogue} {x : KeyExchange × Entropy} {y : SimulatedServer × Entropy} {error : Error}

theorem caughtWith_of_givesUp (hrespond : respond (clock 0).1 request d.server = (.ok reply, y))
    (h : GivesUp d.client.1 d.client.2 (clock 0).2 reply error) :
    CaughtWith error 1 (converse clock (n + 1) request d).1
      (converse clock (n + 1) request d).2.client.1 := by
  obtain ⟨kx, e, hhandle⟩ := h
  rw [converse_last hrespond hhandle]
  exact ⟨rfl, by simp, rfl, rfl, rfl, fun calls log =>
    performAll_of_terminal (s := (kx.abandon error, log)) rfl calls⟩

/-- An answer that is all right puts it off. -/
theorem caughtWith_next (hrespond : respond (clock 0).1 request d.server = (.ok reply, y))
    (hhandle : handle (clock 0).2 reply d.client = (.ok (some next), x))
    (hresult : x.1.result = .error .exchangeNotFinished)
    (h : CaughtWith error rounds (converse (fun i => clock (i + 1)) n next ⟨x, y⟩).1
      (converse (fun i => clock (i + 1)) n next ⟨x, y⟩).2.client.1) :
    CaughtWith error (rounds + 1) (converse clock (n + 1) request d).1
      (converse clock (n + 1) request d).2.client.1 := by
  rw [converse_next hrespond hhandle]
  obtain ⟨hlength, hasked, hlast, hfailed, herror, hfinal⟩ := h
  have hne : (converse (fun i => clock (i + 1)) n next ⟨x, y⟩).1 ≠ [] := by
    intro heq
    rw [heq] at hlast
    cases hlast
  refine ⟨congrArg (· + 1) hlength, ?_, ?_, hfailed, herror, hfinal⟩
  · rw [List.dropLast_cons_of_ne_nil hne]
    exact List.forall_mem_cons.mpr ⟨⟨⟨next, rfl⟩, hresult⟩, hasked⟩
  · rw [List.getLast?_cons_of_ne_nil hne, hlast]

end Caught

/-! ## 5. The server is caught -/

/-- The client trusts the key of the server, and no other key goes by its fingerprint or by the one
that nobody is meant to trust. -/
structure Trusts (keys : List RsaKey) : Prop where
  mem : publicKey ∈ keys
  unique : ∀ k ∈ keys, k.fingerprint = publicKey.fingerprint → k = publicKey
  stranger : ∀ k ∈ keys, k.fingerprint ≠ ~~~publicKey.fingerprint

/-- What has to be on the two tapes for a conversation to get as far as an answer: the factorization
finds the factors, the test for primes comes to an end, and both halves are in range. -/
structure Favourable (round : Nat) (e f : Entropy) : Prop where
  factors : 2 ≤ round → ∃ e₁,
    Number.factorize (factorP * factorQ) (e.skip 16) = (.ok (factorP, factorQ), e₁)
  group : 3 ≤ round → ∀ e₁,
    Number.factorize (factorP * factorQ) (e.skip 16) = (.ok (factorP, factorQ), e₁) →
    ∃ b e₂, Number.isProbablePrime dhPrime 32 (e₁.skip 287) = (.ok b, e₂) ∧
      InRange (generator ^ Bytes.ofBE ((f.skip 16).peek 256) % dhPrime) dhPrime ∧
      InRange (generator ^ Bytes.ofBE (e₂.peek 256) % dhPrime) dhPrime

section Rounds

variable {keys : List RsaKey} {s : SimulatedServer} {clock : Nat → Instant × Instant} {n : Nat}
  {request : Bytes} {nonce serverNonce : Nonce} {newNonce : NewNonce} {e e₁ f : Entropy}
  {error : Error}

/-- A wrong confirmation. -/
theorem caught_at_confirmation {auth : Authorization} {half : Nat}
    (hs : s.nonce = nonce ∧ s.serverNonce = serverNonce ∧ s.newNonce = newNonce)
    (hrequest : BringsHalf nonce serverNonce newNonce half request)
    (hkey : keyOf (Number.powMod half s.exponent dhPrime) = .ok auth.key)
    (hround : s.tamper.round = 3) (herror : s.tamper.error? = some error) :
    CaughtWith error 1
      (converse clock (n + 1) request ⟨(halved keys nonce serverNonce newNonce auth, e), (s, f)⟩).1
      (converse clock (n + 1) request
        ⟨(halved keys nonce serverNonce newNonce auth, e), (s, f)⟩).2.client.1 := by
  obtain ⟨rfl, rfl, rfl⟩ := hs
  obtain ⟨reply, hrespond, hverdict⟩ := respond_half (f := f) (clock 0).1 hrequest hkey
  exact caughtWith_of_givesUp hrespond
    (givesUp_verdict rfl hverdict ⟨rfl, rfl⟩ rfl rfl rfl hround herror)

/-- Parameters that are refused, or given but wrong. -/
theorem caught_at_params (hs : s.nonce = nonce ∧ s.serverNonce = serverNonce)
    (hrequest : BringsFactors nonce serverNonce newNonce (factorP, factorQ) request)
    (hround : s.tamper.round = 2) (herror : s.tamper.error? = some error) :
    CaughtWith error 1
      (converse clock (n + 1) request ⟨(factored keys nonce serverNonce newNonce, e), (s, f)⟩).1
      (converse clock (n + 1) request
        ⟨(factored keys nonce serverNonce newNonce, e), (s, f)⟩).2.client.1 := by
  obtain ⟨rfl, rfl⟩ := hs
  rcases Tamper.cases_second hround herror with ⟨hs, rfl⟩ | ⟨hs, rfl⟩ | ⟨hs, rfl⟩
  · obtain ⟨reply, hrespond, hrefused⟩ := respond_refused (f := f) (clock 0).1 hs hrequest
    exact caughtWith_of_givesUp hrespond (givesUp_refused rfl hrefused ⟨rfl, rfl⟩)
  · obtain ⟨reply, f', exponent, -, hrespond, hparams⟩ :=
      respond_factors (f := f) (clock 0).1 (by simp [hs]) hrequest
    rw [sentDigest_eq (by simp [hs])] at hparams
    have hother : (s.sentParams (clock 0).1 exponent).serverNonce ≠ s.serverNonce := by
      rw [sentParams, if_pos hs]
      exact flip_ne _ (by decide) (by decide)
    obtain ⟨ok, hback, hrun⟩ := onDhParamsOk_otherNonce (e := e)
      (factored keys s.nonce s.serverNonce newNonce) (clock 0).2 hparams rfl hother
    exact caughtWith_of_givesUp hrespond (givesUp_params rfl hback hrun)
  · obtain ⟨reply, f', exponent, -, hrespond, hparams⟩ :=
      respond_factors (f := f) (clock 0).1 (by simp [hs]) hrequest
    have hother : ∀ text, s.sentDigest text ≠ sha1 text := fun text => by
      rw [sentDigest, if_pos hs]
      exact flip_ne _ (by decide) (by decide)
    obtain ⟨ok, hback, hrun⟩ := onDhParamsOk_wrongDigest (e := e)
      (factored keys s.nonce s.serverNonce newNonce) (clock 0).2 hparams hother
    exact caughtWith_of_givesUp hrespond (givesUp_params rfl hback hrun)

/-- From the factors on. -/
theorem caught_from_factors {b : Bool} {e₂ : Entropy}
    (hs : s.nonce = nonce ∧ s.serverNonce = serverNonce)
    (hrequest : BringsFactors nonce serverNonce newNonce (factorP, factorQ) request)
    (hround : s.tamper.round = 3) (herror : s.tamper.error? = some error)
    (hprime : Number.isProbablePrime dhPrime 32 e = (.ok b, e₂))
    (hA : InRange (generator ^ Bytes.ofBE (f.peek 256) % dhPrime) dhPrime)
    (hB : InRange (generator ^ Bytes.ofBE (e₂.peek 256) % dhPrime) dhPrime) :
    CaughtWith error 2
      (converse clock (n + 2) request ⟨(factored keys nonce serverNonce newNonce, e), (s, f)⟩).1
      (converse clock (n + 2) request
        ⟨(factored keys nonce serverNonce newNonce, e), (s, f)⟩).2.client.1 := by
  obtain ⟨rfl, rfl⟩ := hs
  have hright : ∀ {t : Tamper}, t.round = 2 → s.tamper ≠ t := fun ht =>
    Tamper.ne_of_round (by rw [hround, ht]; decide)
  obtain ⟨reply, f', exponent, hexponent, hrespond, hparams⟩ :=
    respond_factors (f := f) (clock 0).1 (hright rfl) hrequest
  rw [sentParams_eq _ (hright rfl) (hright rfl), sentDigest_eq (hright rfl)] at hparams
  rw [← hexponent] at hA
  obtain ⟨next, e₃, auth, hhandle, hkey, -, hbrings⟩ :=
    exists_half keys (clock 0).2 ⟨rfl, rfl⟩ hparams hprime hA hB
  rw [← powMod_right] at hkey
  exact caughtWith_next hrespond hhandle rfl
    (caught_at_confirmation (s := { s with newNonce, exponent }) ⟨rfl, rfl, rfl⟩ hbrings hkey hround
      herror)

/-- A challenge to somebody else, or under a key that is not trusted. -/
theorem caught_at_challenge {reply : Bytes} (hkeys : Trusts keys)
    {y : SimulatedServer × Entropy} {d : Dialogue} (hd : d.client = (opened keys nonce, e))
    (hrespond : respond (clock 0).1 request d.server = (.ok reply, y))
    (hchallenge : ofBoxedBytes HandshakeResponse reply =
      .ok (.resPq (s.sentChallenge nonce serverNonce)))
    (hround : s.tamper.round = 1) (herror : s.tamper.error? = some error) :
    CaughtWith error 1 (converse clock (n + 1) request d).1
      (converse clock (n + 1) request d).2.client.1 := by
  refine caughtWith_of_givesUp hrespond ?_
  rw [hd]
  rcases Tamper.cases_first hround herror with ⟨hs, rfl⟩ | ⟨hs, rfl⟩
  · refine givesUp_resPq rfl hchallenge (onResPq_otherNonce (opened keys nonce) ?_)
    rw [sentChallenge, if_pos hs]
    exact flip_ne _ (by decide) (by decide)
  · refine givesUp_resPq rfl hchallenge (onResPq_stranger (opened keys nonce) ?_ ?_)
    · simp [sentChallenge, hs, opened]
    · simp only [sentChallenge, if_pos hs]
      exact trustedKey_of_stranger hkeys.stranger

/-- **One wrong answer is one error**, whatever is on the tapes. -/
theorem caught_of_tamper (hkeys : Trusts keys) (herror : s.tamper.error? = some error)
    (hdraws : Favourable s.tamper.round e f) (hn : s.tamper.round ≤ n)
    {client : KeyExchange × Entropy} (hstart : start (new keys, e) = (.ok request, client)) :
    CaughtWith error s.tamper.round (converse clock n request ⟨client, (s, f)⟩).1
      (converse clock n request ⟨client, (s, f)⟩).2.client.1 := by
  obtain ⟨q, reply, nonce, serverNonce, hopening, hrespond, hchallenge⟩ :=
    exists_opening keys s e f (clock 0).1
  rw [hstart] at hopening
  cases hopening
  have hright : ∀ {t : Tamper}, s.tamper.round ≠ t.round → s.tamper ≠ t := Tamper.ne_of_round
  have hround := Tamper.round_of_error herror
  obtain ⟨n, rfl⟩ : ∃ m, n = m + 1 := Nat.exists_eq_succ_of_ne_zero (by omega)
  rcases hround with hround | hround
  · rw [hround]
    exact caught_at_challenge hkeys rfl hrespond hchallenge hround herror
  · -- the challenge is in order, and the client sends the factors
    have hlater : s.tamper.round ≠ 1 := by omega
    rw [sentChallenge_eq (hright hlater) (hright hlater)] at hchallenge
    obtain ⟨e₁, hfactors⟩ := hdraws.factors (by omega)
    obtain ⟨next, newNonce, hhandle, hbrings⟩ :=
      exists_factors (clock 0).2 hkeys.mem hkeys.unique hchallenge hfactors (by decide)
    obtain ⟨m, rfl⟩ : ∃ m, n = m + 1 := Nat.exists_eq_succ_of_ne_zero (by omega)
    rcases hround with hround | hround <;> rw [hround]
    · exact caughtWith_next hrespond hhandle rfl
        (caught_at_params (s := { s with nonce, serverNonce }) ⟨rfl, rfl⟩ hbrings hround herror)
    · obtain ⟨b, e₂, hprime, hA, hB⟩ := hdraws.group (by omega) e₁ hfactors
      obtain ⟨k, rfl⟩ : ∃ k, m = k + 1 := Nat.exists_eq_succ_of_ne_zero (by omega)
      exact caughtWith_next hrespond hhandle rfl
        (caught_from_factors (s := { s with nonce, serverNonce }) ⟨rfl, rfl⟩ hbrings hround herror
          hprime hA hB)

end Rounds

/-! ## 6. A composite modulus -/

theorem odd_sentModulus {s : SimulatedServer} (hs : s.tamper = .compositePrime) :
    s.sentModulus % 2 = 1 := by
  rw [sentModulus, if_pos hs]
  decide +kernel

theorem not_prime_sentModulus {s : SimulatedServer} (hs : s.tamper = .compositePrime) :
    ¬ s.sentModulus.Prime := by
  rw [sentModulus, if_pos hs]
  exact Nat.not_prime_mul prime_dhPrime.ne_one (by decide)

section Composite

variable {keys : List RsaKey} {s : SimulatedServer} {clock : Nat → Instant × Instant} {n : Nat}
  {request : Bytes} {nonce serverNonce : Nonce} {newNonce : NewNonce} {e e₁ f : Entropy}
  {turn : Turn}

/-- Where a call is not answered with an error, the answer has been accepted. -/
theorem dispatch_of_handle {kx : KeyExchange} {now : Instant} {reply : Bytes} {r : Option Bytes}
    {t : KeyExchange × Entropy} (h : handle now reply (kx, e) = (.ok r, t)) :
    dispatch now reply (kx, e) = (.ok r, t) := by
  rcases handle_cases now reply kx e with ⟨-, hrun⟩ | ⟨r', t', hrun, hdispatch⟩ |
    ⟨-, -, error, kx', e', hrun⟩ | ⟨fault, kx', e', hrun, -⟩ <;> rw [hrun] at h <;> cases h
  exact hdispatch

/-- Before the last answer there is no key. -/
theorem not_done_of_handle (kx : KeyExchange) (now : Instant) (reply : Bytes)
    (hstate : kx.state = .reqPq ∨ kx.state = .reqDhParams) :
    (handle now reply (kx, e)).2.1.isDone ≠ true := by
  rw [isDone, ne_eq, decide_eq_true_eq]
  rcases handle_cases now reply kx e with ⟨-, hrun⟩ | ⟨r, t, hrun, hdispatch⟩ |
    ⟨-, -, error, kx', e', hrun⟩ | ⟨fault, kx', e', hrun, hsame, -⟩ <;> rw [hrun]
  · rcases hstate with hstate | hstate <;> simp [hstate]
  · rcases hstate with hstate | hstate <;>
      rcases (forward_of_dispatch hdispatch).2 with ⟨hs, ht, -⟩ | ⟨hs, ht, -⟩ | ⟨hs, ht, -⟩ <;>
      simp_all
  · exact ExchangeState.noConfusion
  · rcases hstate with hstate | hstate <;> simp [hsame, hstate]

/-- The client sends its half only if the modulus that it was sent has passed the test. -/
theorem isProbablePrime_of_half {params : ServerDhInnerData} {now : Instant} {reply : Bytes}
    {r : Option Bytes} {t : KeyExchange × Entropy}
    (hreply : BringsParams nonce serverNonce newNonce sha1 params reply)
    (h : handle now reply (factored keys nonce serverNonce newNonce, e) = (.ok r, t)) :
    ∃ e₁, Number.isProbablePrime (Bytes.ofBE params.dhPrime) 32 e = (.ok true, e₁) := by
  obtain ⟨encryptedAnswer, answer, pad, hback, hdecrypt, hpad, hanswer⟩ := hreply
  rcases dispatch_eq_ok_iff.mp (dispatch_of_handle h) with ⟨hstate, -⟩ |
    ⟨-, ok, bytes, hok, -, haccept⟩ | ⟨hstate, -⟩
  · cases hstate
  · rw [hback] at hok
    cases hok
    obtain ⟨-, answer', hash, hdecrypt', inner, hinner, -, e₁, hprime, -⟩ :=
      onDhParamsOk_eq_ok_iff.mp haccept
    obtain ⟨rfl, rfl⟩ := Prod.mk.inj (Except.ok.inj (hdecrypt.symm.trans hdecrypt'))
    have hsame : answerOf (answer ++ pad) (sha1 answer).bytes = .ok params :=
      answerOf_eq_ok_iff.mpr ⟨answer, pad, rfl, hpad, rfl, hanswer⟩
    obtain rfl := Except.ok.inj (hsame.symm.trans hinner)
    exact ⟨e₁, hprime⟩
  · cases hstate

/-- From the factors on there is a key only if all the bases are strong liars. -/
theorem strongLiars_from_factors {factors : UInt64 × UInt64} (hs : s.tamper = .compositePrime)
    (hnonces : s.nonce = nonce ∧ s.serverNonce = serverNonce)
    (hrequest : BringsFactors nonce serverNonce newNonce factors request)
    (hturn : turn ∈ (converse clock n request
      ⟨(factored keys nonce serverNonce newNonce, e), (s, f)⟩).1)
    (hdone : turn.client.isDone = true) :
    factors = (factorP, factorQ) ∧ ∃ bases e₂, bases.length = 32 ∧
      Number.Bases s.sentModulus e bases e₂ ∧
      ∀ base ∈ bases, Number.IsStrongLiar s.sentModulus base := by
  obtain ⟨rfl, rfl⟩ := hnonces
  obtain ⟨m, reply, y, outcome, x, -, hrespond, hhandle, hturn⟩ := mem_converse hturn
  have hright : factors = (factorP, factorQ) := by
    by_contra hother
    obtain ⟨halt, t, hrefused⟩ := respond_otherFactors (f := f) (clock 0).1 hrequest hother
    cases hrefused.symm.trans hrespond
  subst hright
  obtain ⟨reply', f', exponent, -, hrespond', hparams⟩ :=
    respond_factors (f := f) (clock 0).1 (by simp [hs]) hrequest
  cases hrespond'.symm.trans hrespond
  rw [sentDigest_eq (by simp [hs])] at hparams
  refine ⟨rfl, ?_⟩
  rcases hturn with rfl | ⟨next, rfl, -⟩
  · have hnot := not_done_of_handle (e := e)
      (factored keys s.nonce s.serverNonce newNonce) (clock 0).2 reply (Or.inr rfl)
    rw [show handle _ _ _ = _ from hhandle] at hnot
    exact absurd hdone hnot
  · obtain ⟨e₂, hprime⟩ := isProbablePrime_of_half hparams hhandle
    have hmodulus : Bytes.ofBE (s.sentParams (clock 0).1 exponent).dhPrime = s.sentModulus :=
      Bytes.ofBE_ofNat _
    rw [hmodulus] at hprime
    obtain ⟨bases, hlength, hbases, hliars⟩ := Number.strongLiars_of_isProbablePrime
      (odd_sentModulus hs) (not_prime_sentModulus hs) hprime
    exact ⟨bases, e₂, hlength, hbases, hliars⟩

/-- **A composite modulus gets through by luck only**, whatever is on the tapes. -/
theorem strongLiars_of_done (hkeys : Trusts keys) (hs : s.tamper = .compositePrime)
    {client : KeyExchange × Entropy} (hstart : start (new keys, e) = (.ok request, client))
    (hturn : turn ∈ (converse clock n request ⟨client, (s, f)⟩).1)
    (hdone : turn.client.isDone = true) :
    ∃ e₁ bases e₂,
      Number.factorize (factorP * factorQ) (e.skip 16) = (.ok (factorP, factorQ), e₁) ∧
      bases.length = 32 ∧ Number.Bases s.sentModulus (e₁.skip 287) bases e₂ ∧
      ∀ base ∈ bases, Number.IsStrongLiar s.sentModulus base := by
  obtain ⟨q, reply, nonce, serverNonce, hopening, hrespond, hchallenge⟩ :=
    exists_opening keys s e f (clock 0).1
  rw [hstart] at hopening
  cases hopening
  obtain ⟨m, reply', y, outcome, x, -, hrespond', hhandle, hturn⟩ := mem_converse hturn
  cases hrespond.symm.trans hrespond'
  rw [sentChallenge_eq (by simp [hs]) (by simp [hs])] at hchallenge
  rcases hturn with rfl | ⟨next, rfl, hturn⟩
  · have hnot := not_done_of_handle (e := e.skip 16) (opened keys nonce) (clock 0).2 reply
      (Or.inl rfl)
    rw [show handle _ _ _ = _ from hhandle] at hnot
    exact absurd hdone hnot
  · -- the challenge has been accepted, so a factorization has been found
    rcases dispatch_eq_ok_iff.mp (dispatch_of_handle hhandle) with
      ⟨-, res, bytes, hres, -, haccept⟩ | ⟨hstate, -⟩ | ⟨hstate, -⟩
    · rw [hchallenge] at hres
      cases hres
      obtain ⟨-, key, -, pq, hpq, factors, e₁, hfactors, hne, -⟩ := onResPq_eq_ok_iff.mp haccept
      cases challenge_pq.symm.trans hpq
      obtain ⟨next', newNonce, hhandle', hbrings⟩ :=
        exists_factors (clock 0).2 hkeys.mem hkeys.unique hchallenge hfactors hne
      cases hhandle'.symm.trans hhandle
      obtain ⟨rfl, bases, e₂, hlength, hbases, hliars⟩ :=
        strongLiars_from_factors (s := { s with nonce, serverNonce }) hs ⟨rfl, rfl⟩ hbrings hturn
          hdone
      exact ⟨e₁, bases, e₂, hfactors, hlength, hbases, hliars⟩
    · cases hstate
    · cases hstate

end Composite

/-! ## 7. All ways to misbehave -/

/-- The conversation as it is run, where one reading of the clock stands for all: the client has
been given as many answers as it takes, and gives up at the last one. -/
theorem run_caught {keys : List RsaKey} (hkeys : Trusts keys) {s : SimulatedServer} {e f : Entropy}
    {error : Error} (herror : s.tamper.error? = some error)
    (hdraws : Favourable s.tamper.round e f) (now : Instant) :
    ∃ rounds d, run now ⟨(new keys, e), (s, f)⟩ = .ok (rounds, d) ∧
      (rounds.filterMap answered?).length = s.tamper.round ∧
      (rounds.filterMap answered?).getLast? = some .failed ∧ d.client.1.result = .error error := by
  obtain ⟨request, -, hstart⟩ := run_start (e := e) (rfl : (new keys).state = .init)
  have hfour : s.tamper.round ≤ 4 := by
    have := Tamper.round_of_error herror
    omega
  have hcaught : CaughtWith error s.tamper.round
      (converse (fun _ => (now, now)) 4 request ⟨_, (s, f)⟩).1 _ :=
    caught_of_tamper hkeys herror hdraws hfour hstart
  obtain ⟨hend, hstates⟩ := roundsFrom_eq_converse now 4 request ⟨_, (s, f)⟩ []
  rw [List.reverse_nil, List.filterMap_nil, List.nil_append] at hstates
  refine ⟨_, _, by rw [run, hstart], ?_, ?_, ?_⟩
  · rw [hstates, List.length_map]
    exact hcaught.length
  · rw [hstates, List.getLast?_map, hcaught.last, Option.map_some, hcaught.failed]
  · rw [hend]
    exact hcaught.result

/-- **A server that misbehaves is caught.**  Take any tapes of a client that trusts the server's
key, and of a server that misbehaves in one way, and any readings of their clocks.

* If the way leads to an error, and the tapes allow the conversation to get as far as the wrong
  answer, then the client is content with the answers before and gives up at that one with that
  error, and keeps it ever after.  It never has a result.
* So it is in the conversation as it is run, where both sides read one clock throughout.
* If the way is a composite modulus, there is a key only if all 32 bases that were drawn for the
  test for primes are strong liars for the modulus. -/
theorem misbehaviour_caught {keys : List RsaKey} (hkeys : Trusts keys) (s : SimulatedServer)
    (e f : Entropy) (clock : Nat → Instant × Instant) {n : Nat} (hn : s.tamper.round ≤ n) :
    (new keys).result = .error .exchangeNotFinished ∧
    (∀ error, s.tamper.error? = some error → Favourable s.tamper.round e f → ∀ now,
      ∃ rounds d, run now ⟨(new keys, e), (s, f)⟩ = .ok (rounds, d) ∧
        (rounds.filterMap answered?).length = s.tamper.round ∧
        (rounds.filterMap answered?).getLast? = some .failed ∧ d.client.1.result = .error error) ∧
    ∃ request client, start (new keys, e) = (.ok request, client) ∧
      client.1.result = .error .exchangeNotFinished ∧
      (∀ error, s.tamper.error? = some error → Favourable s.tamper.round e f →
        CaughtWith error s.tamper.round (converse clock n request ⟨client, (s, f)⟩).1
          (converse clock n request ⟨client, (s, f)⟩).2.client.1) ∧
      (s.tamper = .compositePrime →
        ∀ turn ∈ (converse clock n request ⟨client, (s, f)⟩).1, turn.client.isDone = true →
        ∃ e₁ bases e₂,
          Number.factorize (factorP * factorQ) (e.skip 16) = (.ok (factorP, factorQ), e₁) ∧
          bases.length = 32 ∧ Number.Bases s.sentModulus (e₁.skip 287) bases e₂ ∧
          ∀ base ∈ bases, Number.IsStrongLiar s.sentModulus base) := by
  obtain ⟨request, -, hstart⟩ := run_start (e := e) (rfl : (new keys).state = .init)
  refine ⟨rfl, fun error herror hdraws now => run_caught hkeys herror hdraws now, request, _, hstart,
    rfl, fun error herror hdraws => ?_, fun hs turn hturn hdone => ?_⟩
  · exact caught_of_tamper hkeys herror hdraws hn hstart
  · exact strongLiars_of_done hkeys hs hstart hturn hdone

/-- On the two tapes, a hash that does not confirm the key is found out at the end. -/
theorem misbehaviour_caught_of_tapes : ∃ request client,
    start (new [publicKey], clientTape) = (.ok request, client) ∧
      CaughtWith .badNewNonceHash 3
        (converse (fun _ => (⟨0, 0⟩, ⟨0, 0⟩)) 3 request
          ⟨client, ({ tamper := .newNonceHash }, serverTape)⟩).1
        (converse (fun _ => (⟨0, 0⟩, ⟨0, 0⟩)) 3 request
          ⟨client, ({ tamper := .newNonceHash }, serverTape)⟩).2.client.1 := by
  have hkeys : Trusts [publicKey] :=
    ⟨List.mem_singleton_self _, fun k hk _ => List.mem_singleton.mp hk, fun k hk => by
      rw [List.mem_singleton.mp hk]
      exact (UInt64.not_ne_self).symm⟩
  have hdraws : Favourable 3 clientTape serverTape := by
    refine ⟨fun _ => ⟨_, factorize_clientTape⟩, fun _ e₁ he₁ => ?_⟩
    cases factorize_clientTape.symm.trans he₁
    exact ⟨_, _, isProbablePrime_clientTape, inRange_serverTape, inRange_clientTape⟩
  obtain ⟨-, -, request, client, hstart, -, hcaught, -⟩ :=
    misbehaviour_caught hkeys { tamper := .newNonceHash } clientTape serverTape
      (fun _ => (⟨0, 0⟩, ⟨0, 0⟩)) (n := 3) (by decide)
  exact ⟨request, client, hstart, hcaught _ rfl hdraws⟩

end Dialogue

end Mtproto
