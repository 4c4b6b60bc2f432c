import Mathlib.Tactic.Common
import Mtproto.Proofs.Connection

/-!
# Messages that a hang-up overtakes

`Connection.work?` hands messages over to the application before it reads frames.  The intention is
that a hang-up, which is seen where the next frame would be, finds all messages handed over.

This holds only if a session that has a message to hand over reads no frames at all.  But the guard
in front of reading compares the number of messages that wait with the capacity of the application's
queue: the session goes on reading while that queue is full and fewer messages are waiting than it
holds.  A hang-up then ends the session, and the messages that wait are lost, although they have
been acknowledged.

* `exists_overtaken`: one waiting message is enough, so all capacities above one are affected.  The
  run that shows it fills the application's queue, has one more message delivered and hangs up.
* `deliveries_eq_nil_iff`: nothing is ever lost exactly if the queue holds a single message, or no
  frame is long enough to bring one.
* `acknowledged_lost`: a message that is acknowledged and lost.
-/

namespace Mtproto.Connection

open Transport Session

variable {limits : Limits} {auth : Authorization} {now : Instant} {k : Nat} {c : Connection}

/-! ## 1. A session that takes one message after the other -/

/-- Nothing is going on but that some messages wait to be handed over, and the application has `k`
events to take, all of them the same message. -/
structure Awaits (limits : Limits) (auth : Authorization) (now : Instant) (k : Nat)
    (waiting : List Incoming) (c : Connection) : Prop where
  reachable : Reachable limits c
  numbers : Numbers auth now c.session.framer
  line : ∀ n, c.session.line n = none
  ended : c.ended = none
  commands : c.commands = []
  abandoned : c.abandoned = false
  hungUp : c.hungUp = false
  inbound : c.inbound = []
  pongs : c.session.pongs = []
  acks : c.session.acks = []
  deliveries : c.session.deliveries = waiting
  events : c.events = List.replicate k (.message 1 [])

/-- A frame of the shortest length, as it arrives. -/
theorem scanFrame_shortest {limit : Nat} {raw : Bytes} (hlength : raw.length = shortestEnvelope)
    (hlimit : shortestEnvelope ≤ limit) : scanFrame limit (14 :: raw) = .frame raw [] := by
  have hbody : scanBody limit 14 (raw ++ []) = _ := scanBody_whole hlength hlimit []
  rw [List.append_nil, if_neg (by decide)] at hbody
  unfold scanFrame
  exact (if_pos (by decide)).trans hbody

/-- An envelope without payload has the shortest length. -/
theorem length_of_sealed {key : AuthKey} {d : Direction} {env : Envelope} {pad raw : Bytes}
    (h : Envelope.Sealed key d env pad raw) (hpayload : env.payload = []) :
    raw.length = shortestEnvelope := by
  have hlength := h.length_raw
  have hmod := h.length_mod
  have hpad := h.padding_lt
  rw [hpayload, List.length_nil] at hlength hmod
  simp only [Envelope.outerHeader, Envelope.innerHeader, Envelope.block] at hlength hmod hpad
  have hshortest : shortestEnvelope = 56 := rfl
  omega

/-- A message arrives, is read, and waits to be handed over; it has been acknowledged. -/
theorem Awaits.accept (h : Awaits limits auth now k [] c) (hid : auth.key.id ≠ 0)
    (hcapacity : 0 < limits.capacity) (hlimit : shortestEnvelope ≤ limits.frameSize)
    (msgId : UInt64) :
    ∃ c', Awaits limits auth now k [.message msgId []] c' ∧ Acknowledged auth c'.session msgId := by
  have hshort : ([] : Bytes).length < 2 ^ 32 := by decide
  obtain ⟨pad, raw, hraw⟩ := Envelope.exists_sealed auth.key .serverToClient
    ⟨0, auth.sessionId, msgId, 1, []⟩ hshort
  have hinv := inv_of_reachable h.reachable
  have hscan := scanFrame_shortest (length_of_sealed hraw rfl) hlimit
  have hread : (c.arrive (14 :: raw)).work? = some (.read raw []) := by
    refine work?_eq_some_iff.mpr (Or.inr (Or.inr (Or.inr ⟨h.ended, Or.inl h.deliveries, ?_⟩)))
    refine serving?_eq_some_iff.mpr (Or.inr (Or.inr ⟨h.commands, h.abandoned, ?_⟩))
    refine reading?_eq_some_iff.mpr ⟨?_, Or.inl ⟨raw, [], ?_, rfl⟩⟩
    · simp only [arrive, h.deliveries, hinv.sameLimits, List.length_nil]
      exact hcapacity
    · simp only [arrive, h.inbound, hinv.sameLimits, List.nil_append]
      exact hscan
  obtain ⟨f, ack, tape, hframe, hnumbers, env, hopen, henv⟩ :=
    run_onFrame_content (e := c.tape) h.numbers hid h.line h.pongs h.acks hraw
  have hperform : (c.arrive (14 :: raw)).perform now (.read raw []) = { c with
      inbound := [], burst := c.burst + 1, tape
      session := { c.session with
        framer := f, pongs := [], acks := [], written := c.session.written ++ [ack]
        deliveries := c.session.deliveries ++ [.message msgId []] } } := by
    simp only [perform, carryOut, arrive, hframe]
  have hreachable := (h.reachable.step (.arrive (14 :: raw) h.hungUp)).step (.turn now hread)
  rw [hperform] at hreachable
  refine ⟨_, ⟨hreachable, hnumbers, h.line, h.ended, h.commands, h.abandoned, h.hungUp, rfl, rfl,
    rfl, ?_, h.events⟩, ack, ?_, env, [msgId], hopen, henv, List.mem_singleton_self msgId⟩
  · rw [h.deliveries]
    rfl
  · exact List.mem_append_right _ (List.mem_singleton_self ack)

/-- A message is handed over if there is room for it. -/
theorem Awaits.handOver (h : Awaits limits auth now k [.message 1 []] c)
    (hroom : k < limits.capacity) : ∃ c', Awaits limits auth now (k + 1) [] c' := by
  have hinv := inv_of_reachable h.reachable
  have hdeliver : c.work? = some (.deliver (.message 1 []) []) := by
    refine work?_eq_some_iff.mpr (Or.inr (Or.inr (Or.inl ⟨_, [], h.ended, hinv.listening,
      h.deliveries, ?_, rfl⟩)))
    rw [h.events, hinv.sameLimits, List.length_replicate]
    exact hroom
  refine ⟨_, h.reachable.step (.turn now hdeliver), h.numbers, h.line, h.ended, h.commands,
    h.abandoned, h.hungUp, h.inbound, h.pongs, h.acks, rfl, ?_⟩
  rw [perform, h.events, List.replicate_succ']

/-! ## 2. The run -/

/-- An authorization with a key of zero bytes. -/
def zeroAuthorization : Authorization :=
  { key := ⟨⟨List.replicate 256 0, List.length_replicate⟩⟩, serverSalt := 0, sessionId := 0,
    timeOffset := 0 }

theorem id_zeroAuthorization : zeroAuthorization.key.id ≠ 0 := by decide +kernel

/-- A session that has been stored is taken up. -/
theorem exists_awaits_start (limits : Limits) :
    ∃ c, Awaits limits zeroAuthorization ⟨0, 0⟩ 0 [] c := by
  have hdeliveries :
      ((Session.new []).restore { auth := some zeroAuthorization }).deliveries = [] := rfl
  have hstart : Reachable limits _ := .start ⟨0, 0⟩ (.starting []) hdeliveries
  exact ⟨_, hstart, ⟨rfl, rfl⟩, fun _ => rfl, rfl, rfl, rfl, rfl, rfl, rfl, rfl, rfl, rfl⟩

/-- The application's queue is filled. -/
theorem exists_awaits (hcapacity : 0 < limits.capacity)
    (hlimit : shortestEnvelope ≤ limits.frameSize) (hk : k ≤ limits.capacity) :
    ∃ c, Awaits limits zeroAuthorization ⟨0, 0⟩ k [] c := by
  induction k with
  | zero => exact exists_awaits_start limits
  | succ k ih =>
    obtain ⟨c, hc⟩ := ih (Nat.le_of_succ_le hk)
    obtain ⟨c', hc', -⟩ := hc.accept id_zeroAuthorization hcapacity hlimit 1
    exact hc'.handOver hk

/-- **A hang-up that overtakes a message.**  Where two messages fit into the application's queue,
it can be full when a hang-up comes, and a message that has been acknowledged is lost. -/
theorem exists_overtaken (limits : Limits) (hcapacity : 2 ≤ limits.capacity)
    (hlimit : shortestEnvelope ≤ limits.frameSize) :
    ∃ c, Reachable limits c ∧ c.HangsUp ∧ c.session.deliveries = [.message 3 []] ∧
      Acknowledged zeroAuthorization c.session 3 ∧ ∀ now, .message 3 [] ∉ (c.run now).events := by
  have hpositive : 0 < limits.capacity := lt_of_lt_of_le Nat.zero_lt_two hcapacity
  obtain ⟨c, hc⟩ := exists_awaits hpositive hlimit le_rfl
  obtain ⟨c', hc', hack⟩ := hc.accept id_zeroAuthorization hpositive hlimit 3
  have hinv := inv_of_reachable hc'.reachable
  have hhangs : c'.hangUp.HangsUp := by
    refine hangsUp_iff.mpr ⟨hc'.ended, hc'.commands, hc'.abandoned, ⟨rfl, ?_⟩, ?_,
      Or.inr ⟨hinv.listening, ?_⟩⟩
    · simp [isReadable, hangUp, hc'.inbound, scanFrame]
    · simp only [hangUp, hc'.deliveries, hinv.sameLimits]
      exact hcapacity
    · simp only [hangUp, hc'.events, hinv.sameLimits, List.length_replicate, le_refl]
  refine ⟨c'.hangUp, hc'.reachable.step .hangUp, hhangs, hc'.deliveries, hack, fun now => ?_⟩
  have hevents : c'.hangUp.events = List.replicate limits.capacity (.message 1 []) := hc'.events
  have hother : Incoming.message 3 [] ≠ .message 1 [] := by decide
  rw [(run_of_hangsUp now hhangs).2, hevents, List.mem_replicate]
  exact fun hmem => hother hmem.2

/-! ## 3. When nothing is lost -/

/-- **What is lost when the peer hangs up.** The session loop may notice the hang-up while decoded
messages still wait for room in the application's queue; it ends, and they are dropped. There are
fewer of them than the queue holds. No message is ever lost exactly if the queue holds a single
message, or if no frame is long enough to bring one. -/
theorem deliveries_eq_nil_iff (limits : Limits) :
    (∀ c, Reachable limits c → c.HangsUp → c.session.deliveries = [] ∨
      c.events.length = limits.capacity ∧ c.session.deliveries.length < limits.capacity) ∧
    ((∀ c, Reachable limits c → c.HangsUp → c.session.deliveries = []) ↔
      limits.capacity ≤ 1 ∨ limits.frameSize < shortestEnvelope) := by
  have hfull : ∀ c, Reachable limits c → c.HangsUp → c.session.deliveries = [] ∨
      c.events.length = limits.capacity ∧ c.session.deliveries.length < limits.capacity := by
    intro c hc hhangs
    have hinv := inv_of_reachable hc
    obtain ⟨-, -, -, -, hroom, hstuck⟩ := hangsUp_iff.mp hhangs
    rw [hinv.sameLimits] at hroom
    rcases hstuck with hnone | ⟨-, hevents⟩
    · exact Or.inl hnone
    · rw [hinv.sameLimits] at hevents
      exact Or.inr ⟨le_antisymm hinv.events hevents, hroom⟩
  refine ⟨hfull, ⟨fun hall => ?_, fun hlimits c hc hhangs => ?_⟩⟩
  · by_contra hlimits
    rw [not_or, not_le, not_lt] at hlimits
    obtain ⟨c, hc, hhangs, hwaiting, -⟩ := exists_overtaken limits hlimits.1 hlimits.2
    have := hall c hc hhangs
    rw [hwaiting] at this
    cases this
  · rcases hlimits with hcapacity | hshort
    · rcases hfull c hc hhangs with hnone | ⟨-, hroom⟩
      · exact hnone
      · exact List.eq_nil_of_length_eq_zero (by omega)
    · exact (inv_of_reachable hc).quiet hshort

/-- With room for two events, a message that has been acknowledged can be lost. -/
theorem acknowledged_lost : ∃ c, Reachable ⟨1048576, 2⟩ c ∧ c.HangsUp ∧
    ∃ msgId payload, .message msgId payload ∈ c.session.deliveries ∧
      Acknowledged zeroAuthorization c.session msgId ∧
      ∀ now, .message msgId payload ∉ (c.run now).events := by
  obtain ⟨c, hc, hhangs, hwaiting, hack, hlost⟩ :=
    exists_overtaken ⟨1048576, 2⟩ (le_refl 2) (by decide)
  refine ⟨c, hc, hhangs, 3, [], ?_, hack, hlost⟩
  rw [hwaiting]
  exact List.mem_singleton_self _

end Mtproto.Connection
