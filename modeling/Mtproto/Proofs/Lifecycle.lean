import Mathlib.Tactic.Common
import Mtproto.Proofs.Authentication
import Mtproto.Proofs.Triple

/-!
# The states of a key exchange

A `KeyExchange` passes through its states in order, from `init` to `done`, or gives up in `failed`,
and both ends are final.  What it holds besides follows from its state (`Consistent`): the result is
there from the moment the client's half has been sent, and an error once it has given up.

The handlers overwrite fields before they are sure to succeed.  An error does no harm, since giving
up clears what may have been overwritten.  A fault gives nothing up, so it has to be seen that the
result is stored only when no fault can follow (`onDhParamsOk_fault`).

* `Moves`: the moves that a call can make from each state.
* `lifecycle`: for every sequence of calls, the moves, what is pending, the error and the result,
  and that a call which is refused changes neither the client nor the tape.
-/

namespace Mtproto

open Wire

namespace KeyExchange

variable {keys : List RsaKey} {kx kx' : KeyExchange} {log : Log}

/-! ## 1. Faults -/

/-- After the result has been stored there are errors but no faults. -/
theorem onDhParamsOk_fault (now : Instant) (ok : ServerDhParamsOk) :
    Act.Triple (· = kx) (onDhParamsOk now ok) (fun _ _ => True)
      (fun halt kx' => ∀ fault, halt = .fault fault → kx' = kx) := by
  have hlook : ∀ (halt : Halt) kx', kx' = kx → ∀ fault, halt = .fault fault → kx' = kx :=
    fun _ _ h _ _ => h
  have herror : ∀ (e : Error) kx', True → ∀ fault, Halt.error e = .fault fault → kx' = kx := by
    rintro e kx' - fault ⟨⟩
  unfold onDhParamsOk
  simp only [Act.fail_bind]
  refine .look Act.keeps_state hlook fun kx => .look (Act.keeps_ofExcept _) hlook fun _ =>
    .look (Act.keeps_ofExcept _) hlook fun answer => .look (Act.keeps_ofExcept _) hlook fun inner =>
    ?_
  refine .look (Act.keeps_ofExcept _) hlook fun _ => .look (Act.keeps_draw _) hlook fun b =>
    .ite (fun _ => .fail (hlook _)) fun _ => .ite (fun _ => .fail (hlook _)) fun _ => ?_
  refine .look (Act.keeps_ofExcept _) hlook fun _ => .look (Act.keeps_ofExcept _) hlook fun _ =>
    .look (Act.keeps_draw _) hlook fun exponent => .look (Act.keeps_ofExcept _) hlook fun _ => ?_
  refine .look (Act.keeps_ofExcept _) hlook fun key => .look (Act.keeps_draw _) hlook
    fun sessionId => ?_
  refine .update_bind (I := fun _ => True) (fun _ _ => trivial) ?_
  refine .ofExcept_bind herror fun body _ => .drawExcept_bind ?_ herror fun data _ _ _ =>
    .ofExcept_bind herror fun bytes _ => ?_
  · intro fault e e' hrun
    rw [Ige.run_encryptWithHash] at hrun
    cases hrun
  refine .map (.state_bind fun kx _ => .ite ?_ ?_)
  · exact fun _ => .update fun _ _ => trivial
  · exact fun _ => .fail fun kx' _ => herror _ kx' trivial

/-- Where an answer is handled, a fault leaves the result as it is. -/
theorem pending_of_fault {now : Instant} {payload : Bytes} {fault : Fault}
    {e : Entropy} {t : KeyExchange × Entropy}
    (h : dispatch now payload (kx, e) = (.error (.fault fault), t)) : t.1.pending = kx.pending := by
  by_cases hstate : kx.state = .reqDhParams
  · unfold dispatch at h
    cases hresponse : ofBoxedBytes HandshakeResponse payload with
    | error error =>
      rw [hresponse] at h
      cases h
    | ok response =>
      rw [hresponse, DecodeError.lift_ok, Act.ofExcept_ok_bind, Act.state_bind, hstate] at h
      cases response with
      | serverDhParamsOk ok =>
        have hrun : (onDhParamsOk now ok >>= fun bytes => pure (some bytes)) (kx, e) = _ := h
        have hfault : Act.Triple (· = kx) (onDhParamsOk now ok >>= fun bytes => pure (some bytes))
          (fun _ _ => True) _ := .map (onDhParamsOk_fault now ok)
        rw [hfault.error rfl hrun fault rfl]
      | serverDhParamsFail v =>
        have hsame : t.1 = kx := haltKeeps_refuse _ _ _ _ _ _ h
        rw [hsame]
      | resPq | dhGenOk | dhGenRetry | dhGenFail => cases h
  · exact (sameGround_of_dispatch h).pending hstate

/-! ## 2. One call -/

/-- What comes of an answer: it is not expected, or it is accepted, or it ends the exchange with an
error, or there is a fault, which moves nothing that counts. -/
theorem handle_cases (now : Instant) (payload : Bytes) (kx : KeyExchange) (e : Entropy) :
    ((kx.state.isTerminal = true ∨ kx.state = .init) ∧
      handle now payload (kx, e) = (.error (.error .unexpectedCommand), kx, e)) ∨
    (∃ r t, handle now payload (kx, e) = (.ok r, t) ∧ dispatch now payload (kx, e) = (.ok r, t)) ∨
    (kx.state.isTerminal = false ∧ kx.state ≠ .init ∧
      ∃ (error : Error) (kx' : KeyExchange) (e' : Entropy),
        handle now payload (kx, e) = (.error (.error error), kx'.abandon error, e')) ∨
    (∃ fault kx' e', handle now payload (kx, e) = (.error (.fault fault), kx', e') ∧
      kx'.state = kx.state ∧ kx'.pending = kx.pending ∧ kx'.error = kx.error) := by
  by_cases hclosed : kx.state.isTerminal = true ∨ kx.state = .init
  · exact Or.inl ⟨hclosed, run_handle_closed hclosed⟩
  · rw [not_or, Bool.not_eq_true] at hclosed
    obtain ⟨hterminal, hinit⟩ := hclosed
    have hhandle := run_handle e now payload hterminal hinit
    rcases hrun : dispatch now payload (kx, e) with ⟨(error | fault) | r, kx', e'⟩
    all_goals rw [hrun] at hhandle
    · exact Or.inr (Or.inr (Or.inl ⟨hterminal, hinit, error, kx', e', hhandle⟩))
    · have hground := sameGround_of_dispatch hrun
      exact Or.inr (Or.inr (Or.inr ⟨fault, kx', e', hhandle, hground.state, pending_of_fault hrun,
        hground.error⟩))
    · exact Or.inr (Or.inl ⟨r, (kx', e'), hhandle, rfl⟩)

/-- The three steps forward. -/
theorem forward_of_dispatch {now : Instant} {payload : Bytes} {e : Entropy} {r : Option Bytes}
    {t : KeyExchange × Entropy} (h : dispatch now payload (kx, e) = (.ok r, t)) :
    t.1.error = kx.error ∧
      ((kx.state = .reqPq ∧ t.1.state = .reqDhParams ∧ t.1.pending = kx.pending) ∨
      (kx.state = .reqDhParams ∧ t.1.state = .setClientDhParams ∧ t.1.pending.isSome = true) ∨
      (kx.state = .setClientDhParams ∧ t.1.state = .done ∧ t.1.pending = kx.pending)) := by
  rcases dispatch_eq_ok_iff.mp h with ⟨hstate, res, bytes, -, -, haccept⟩ |
    ⟨hstate, ok, bytes, -, -, haccept⟩ | ⟨hstate, ok, -, -, haccept⟩
  · obtain ⟨-, key, -, pq, -, f, e₁, -, -, body, -, block, -, data, -, -, -, rfl⟩ :=
      onResPq_eq_ok_iff.mp haccept
    exact ⟨rfl, Or.inl ⟨hstate, rfl, rfl⟩⟩
  · obtain ⟨-, answer, hash, -, inner, -, -, e₁, -, -, -, -, -, key, -, body, -, data, e₂, -, -, -,
      rfl⟩ := onDhParamsOk_eq_ok_iff.mp haccept
    exact ⟨rfl, Or.inr (Or.inl ⟨hstate, rfl, rfl⟩)⟩
  · obtain ⟨-, auth, -, -, -, rfl⟩ := onDhGenOk_eq_ok_iff.mp haccept
    exact ⟨rfl, Or.inr (Or.inr ⟨hstate, rfl, rfl⟩)⟩

/-! ## 3. What an exchange holds in each state -/

/-- A result is held exactly from the moment our half has been sent, and an error exactly once the
exchange has been given up. -/
structure Consistent (kx : KeyExchange) : Prop where
  pending : kx.pending.isSome = true ↔ kx.state = .setClientDhParams ∨ kx.state = .done
  error : kx.error.isSome = true ↔ kx.state = .failed

/-- A new exchange holds neither a result nor an error. -/
theorem consistent_new (keys : List RsaKey) : Consistent (new keys) := by
  constructor <;> simp [new]

/-- Consistency depends on the state, the result and the error only. -/
theorem Consistent.of_same (h : Consistent kx) (hstate : kx'.state = kx.state)
    (hpending : kx'.pending = kx.pending) (herror : kx'.error = kx.error) : Consistent kx' := by
  constructor
  · rw [hpending, hstate]
    exact h.pending
  · rw [herror, hstate]
    exact h.error

theorem consistent_abandon (kx : KeyExchange) (e : Error) : Consistent (kx.abandon e) := by
  constructor <;> simp [abandon]

/-- A call moves an exchange along its states, or not at all. -/
def Moves (kx kx' : KeyExchange) : Prop :=
  kx'.state = kx.state ∨ kx'.state ∈ kx.state.validTransitions

theorem failed_mem_validTransitions {s : ExchangeState} (hterminal : s.isTerminal = false) :
    ExchangeState.failed ∈ s.validTransitions := by
  cases s <;> simp_all [ExchangeState.isTerminal, ExchangeState.validTransitions]

/-- A response leaves the exchange consistent, and moves it along an edge or not at all. -/
theorem perform_handle (now : Instant) (payload : Bytes) (tape : Entropy) (h : Consistent kx) :
    Consistent (perform (kx, log) (.handle tape now payload)).1 ∧
      Moves kx (perform (kx, log) (.handle tape now payload)).1 := by
  rcases handle_cases now payload kx tape with ⟨-, hrun⟩ | ⟨r, ⟨kx', e'⟩, hrun, haccept⟩ |
    ⟨hterminal, -, error, kx', e', hrun⟩ | ⟨fault, kx', e', hrun, hstate, hpending, herror⟩
  all_goals simp only [perform, hrun]
  · exact ⟨h, Or.inl rfl⟩
  · obtain ⟨herror, hforward⟩ := forward_of_dispatch haccept
    have hp := h.pending
    have he := h.error
    -- the fields that a step forward does not set are as the state before has them
    rcases hforward with ⟨hs, hs', hpending⟩ | ⟨hs, hs', hpending⟩ | ⟨hs, hs', hpending⟩
    all_goals refine ⟨⟨?_, ?_⟩, Or.inr ?_⟩
    all_goals simp_all [ExchangeState.validTransitions]
  · exact ⟨consistent_abandon kx' error, Or.inr (failed_mem_validTransitions hterminal)⟩
  · exact ⟨h.of_same hstate hpending herror, Or.inl hstate⟩

theorem perform_start (tape : Entropy) (h : Consistent kx) :
    Consistent (perform (kx, log) (.start tape)).1 ∧
      Moves kx (perform (kx, log) (.start tape)).1 := by
  by_cases hinit : kx.state = .init
  · obtain ⟨request, -, hrun⟩ := run_start (e := tape) hinit
    simp only [perform, hrun]
    have hp := h.pending
    have he := h.error
    simp only [hinit] at hp he
    refine ⟨⟨by simpa using hp, by simpa using he⟩, Or.inr ?_⟩
    rw [hinit]
    exact List.mem_cons_self
  · simp only [perform, run_start_of_ne hinit]
    exact ⟨h, Or.inl rfl⟩

theorem perform_consistent (call : Call) (h : Consistent kx) :
    Consistent (perform (kx, log) call).1 ∧ Moves kx (perform (kx, log) call).1 := by
  cases call with
  | start tape => exact perform_start tape h
  | handle tape now payload => exact perform_handle now payload tape h

/-! ## 4. Any calls -/

theorem performAll_append (keys : List RsaKey) (calls more : List Call) :
    performAll keys (calls ++ more) = more.foldl perform (performAll keys calls) := by
  rw [performAll, List.foldl_append]
  rfl

theorem consistent_performAll (keys : List RsaKey) (calls : List Call) :
    Consistent (performAll keys calls).1 := by
  induction calls using List.reverseRecOn with
  | nil => exact consistent_new keys
  | append_singleton calls call ih =>
    rw [performAll_append]
    exact (perform_consistent call ih).1

/-- Nothing changes an exchange that has come to its end. -/
theorem perform_of_terminal {s : KeyExchange × Log} (h : s.1.state.isTerminal = true)
    (call : Call) : (perform s call).1 = s.1 := by
  have hinit : s.1.state ≠ .init := by
    intro heq
    rw [heq] at h
    cases h
  cases call with
  | start tape =>
    unfold perform
    simp only [run_start_of_ne hinit]
  | handle tape now payload =>
    unfold perform
    simp only [run_handle_closed (Or.inl h)]

/-- A terminal exchange is not changed by any calls. -/
theorem performAll_of_terminal {s : KeyExchange × Log} (h : s.1.state.isTerminal = true)
    (calls : List Call) : (calls.foldl perform s).1 = s.1 := by
  induction calls generalizing s with
  | nil => rfl
  | cons call calls ih =>
    have hsame := perform_of_terminal h call
    rw [List.foldl_cons, ih (by rw [hsame]; exact h), hsame]

/-- A result can be had exactly if the exchange is done. -/
theorem result_eq_ok_iff (h : Consistent kx) :
    (∃ auth, kx.result = .ok auth) ↔ kx.state = .done := by
  have hp := h.pending
  unfold result
  cases hstate : kx.state <;> cases hpending : kx.pending <;> simp_all

/-- **The exchange is a state machine.**  After any calls of `start` and `handle`, with whatever
payloads and tapes:

* a further call leaves the state or moves along the transitions;
* a result is held exactly in the last two states of an exchange that succeeds, and an error
  exactly when it has been given up;
* there is a result to take exactly at the end;
* an error of an expected answer is the one that is kept, and no result is;
* elsewhere a call is refused and changes nothing, and takes nothing from the tape;
* so at the end nothing changes any more. -/
theorem lifecycle (keys : List RsaKey) (calls : List Call) :
    let kx := (performAll keys calls).1
    (∀ call, Moves kx (performAll keys (calls ++ [call])).1) ∧
    (kx.pending.isSome = true ↔ kx.state = .setClientDhParams ∨ kx.state = .done) ∧
    (kx.error.isSome = true ↔ kx.state = .failed) ∧
    ((∃ auth, kx.result = .ok auth) ↔ kx.state = .done) ∧
    (∀ now payload tape e kx' tape', kx.state ∈ [.reqPq, .reqDhParams, .setClientDhParams] →
      handle now payload (kx, tape) = (.error (.error e), kx', tape') →
        kx'.state = .failed ∧ kx'.error = some e ∧ kx'.pending = none) ∧
    (∀ now payload tape, kx.state ∈ [.init, .done, .failed] →
      handle now payload (kx, tape) = (.error (.error .unexpectedCommand), kx, tape)) ∧
    (∀ tape, kx.state ≠ .init →
      start (kx, tape) = (.error (.error .unexpectedCommand), kx, tape)) ∧
    (kx.state.isTerminal = true → ∀ more, (performAll keys (calls ++ more)).1 = kx) := by
  intro kx
  have hconsistent : Consistent kx := consistent_performAll keys calls
  refine ⟨?_, hconsistent.pending, hconsistent.error, result_eq_ok_iff hconsistent, ?_, ?_, ?_, ?_⟩
  · intro call
    rw [performAll_append]
    exact (perform_consistent call hconsistent).2
  · intro now payload tape e kx' tape' hstate hrun
    rcases handle_cases now payload kx tape with ⟨hclosed, -⟩ | ⟨r, t, hrun', -⟩ |
      ⟨-, -, error, kx'', e', hrun'⟩ | ⟨fault, kx'', e', hrun', -⟩
    · simp only [List.mem_cons, List.not_mem_nil, or_false] at hstate
      rcases hstate with hstate | hstate | hstate <;> rw [hstate] at hclosed <;>
        exact absurd hclosed (by decide)
    · rw [hrun'] at hrun
      cases hrun
    · rw [hrun'] at hrun
      cases hrun
      exact ⟨rfl, rfl, rfl⟩
    · rw [hrun'] at hrun
      cases hrun
  · intro now payload tape hstate
    refine run_handle_closed ?_
    simp only [List.mem_cons, List.not_mem_nil, or_false] at hstate
    rcases hstate with hstate | hstate | hstate <;> rw [hstate] <;> decide
  · intro tape hstate
    exact run_start_of_ne hstate
  · intro hterminal more
    rw [performAll_append]
    exact performAll_of_terminal hterminal more

end KeyExchange

end Mtproto
