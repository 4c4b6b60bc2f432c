import Mathlib.Tactic.Common
import Mtproto.Proofs.Ledger
import Mtproto.Proofs.Lifecycle
import Mtproto.Proofs.Unauthenticated

/-!
# What becomes of a send

`Command.send` asks a session to send content.  A send takes one of two ways: it waits for the key,
or it is written at once.  Service messages and requests of the key exchange are written in between,
by the same framer, and the session may end at any frame.

Through all of this the books of the session (`Ledger`) balance.  `Working` says so while the
session works, `Halted` when a procedure has halted, and `Settled` when the session has ended and
has told every sender.

* `working_send`, `working_onFrame`, `working_begin`: what each procedure of the session does to the
  books.
* `upheld_signalled`: and to the signal that there is a key, before which nothing is written.
* `Setting.exists_account`: what the senders and the other side want to know (`Setting.Account`), in
  every history: order, numbers, outcomes, and that nothing is lost or written twice.
-/

namespace Mtproto

open Wire

namespace Session

/-! ## 1. The books at work -/

theorem aside_identity : Aside identity :=
  fun _ _ _ _ _ hauth => congrArg (Option.map Authorization.identity) hauth

/-- A session at work: nothing has been rejected, the counter agrees with the books, and where there
is a key the signal has been given and nothing waits. -/
structure Working (first : UInt32) (given : List (Ticket × Bytes)) (s : Session) : Prop where
  balance : ∃ entries, Ledger first given entries [] s.queued s ∧
    s.framer.seqNo = counter first (Entry.posts entries).length
  ready : s.isReady = true → s.ready.isSome = true ∧ s.queued = []

/-- A session that a procedure has halted. -/
def Halted (first : UInt32) (given : List (Ticket × Bytes)) (s : Session) : Prop :=
  ∃ entries rejections, Ledger first given entries rejections s.queued s

/-- A session at its end: nothing waits. -/
def Settled (first : UInt32) (given : List (Ticket × Bytes)) (s : Session) : Prop :=
  ∃ entries rejections, Ledger first given entries rejections [] s

/-- A session that has given the signal and writes some sends before those that wait. -/
structure Sending (first : UInt32) (given front queued : List (Ticket × Bytes)) (s : Session) :
    Prop where
  balance : ∃ entries, Ledger first given entries [] (front ++ queued) s ∧
    s.framer.seqNo = counter first (Entry.posts entries).length
  isReady : s.isReady = true
  ready : s.ready.isSome = true
  queued : s.queued = queued

variable {first : UInt32} {given queued : List (Ticket × Bytes)} {s : Session}

theorem Working.halted (h : Working first given s) : Halted first given s := by
  obtain ⟨entries, hledger, -⟩ := h.balance
  exact ⟨entries, [], hledger⟩

theorem Sending.working (h : Sending first given [] [] s) : Working first given s := by
  obtain ⟨entries, hledger, hnumber⟩ := h.balance
  refine ⟨⟨entries, ?_, hnumber⟩, fun _ => ⟨h.ready, h.queued⟩⟩
  rw [h.queued]
  exact hledger

/-- A session at work that has a key may write. -/
theorem Working.sending (h : Working first given s) (hready : s.isReady = true)
    (send : Ticket × Bytes) : Sending first (given ++ [send]) [send] [] s := by
  obtain ⟨entries, hledger, hnumber⟩ := h.balance
  obtain ⟨hsignal, hqueued⟩ := h.ready hready
  rw [hqueued] at hledger
  exact ⟨⟨entries, hledger.accept [send], hnumber⟩, hready, hsignal, hqueued⟩

/-! ## 2. Content -/

theorem sending_writeContent (now : Instant) (ticket : Ticket) (payload : Bytes) :
    Act.Triple (Sending first given [(ticket, payload)] queued) (writeContent now ticket payload)
      (fun _ => Sending first given [] queued) fun _ => Halted first given := by
  refine .of_eq fun s hs => (writeContent_triple now ticket payload s).post ?_ ?_
  · rintro - - ⟨framer, msgId, raw, rfl, hformats⟩
    obtain ⟨entries, hledger, hnumber⟩ := hs.balance
    obtain ⟨auth, hauth, hopen⟩ := hformats.encrypted (by decide)
    let post : Post := ⟨ticket, payload, msgId, s.framer.seqNo + 1, raw⟩
    have hgenuine : (Entry.content post).Genuine s.identity :=
      ⟨auth.key, _, by rw [identity, hauth]; rfl, hopen, rfl, rfl, rfl⟩
    have hledger' : Ledger first given (entries ++ [.content post]) [] queued { s with
        framer, written := s.written ++ [raw], outcomes := s.outcomes ++ [(ticket, .ok msgId)] } :=
      hledger.post hgenuine (congrArg (· + 1) hnumber) hs.ready rfl rfl rfl
        (aside_identity _ _ _ _ _ hformats.auth)
    refine ⟨⟨_, hledger', ?_⟩, (aside_isReady _ _ _ _ _ hformats.auth).trans hs.isReady, hs.ready,
      hs.queued⟩
    rw [Entry.posts_append, Entry.posts_content, List.length_append, List.length_singleton,
      counter_succ, ← hnumber]
    exact hformats.seqNo
  · rintro - - ⟨framer, e, rfl, hauth⟩
    obtain ⟨entries, hledger, -⟩ := hs.balance
    rw [← hs.queued] at hledger
    exact ⟨entries, _, hledger.reject [⟨ticket, payload, e⟩] rfl rfl rfl
      (aside_identity _ _ _ _ _ hauth)⟩

/-- Everything that waits is written, in order. -/
theorem sending_writeQueued (now : Instant) (queued : List (Ticket × Bytes)) :
    Act.Triple (Sending first given [] queued) (writeQueued now queued)
      (fun _ => Sending first given [] []) fun _ => Halted first given := by
  induction queued with
  | nil => exact .pure fun _ h => h
  | cons send queued ih =>
    refine .update_bind (I := Sending first given [send] queued) ?_
      (.bind (sending_writeContent now send.1 send.2) fun _ => ih)
    intro s h
    obtain ⟨entries, hledger, hnumber⟩ := h.balance
    exact ⟨⟨entries, hledger.of_same rfl rfl rfl rfl, hnumber⟩, h.isReady, h.ready, rfl⟩

/-- **A send is posted, or waits, or ends the session.** -/
theorem working_send (now : Instant) (ticket : Ticket) (payload : Bytes) :
    Act.Triple (Working first given) (send now ticket payload)
      (fun _ => Working first (given ++ [(ticket, payload)]))
      fun _ => Halted first (given ++ [(ticket, payload)]) := by
  refine .state_bind fun s hs => .ite (fun hready => ?_) fun hready => .update ?_
  · refine (sending_writeContent now ticket payload).weaken (P := Sending first _ _ []) ?_
      (fun _ _ h => h.working) fun _ _ h => h
    rintro s rfl
    exact hs.sending hready (ticket, payload)
  · rintro s rfl
    obtain ⟨entries, hledger, hnumber⟩ := hs.balance
    exact ⟨⟨entries, (hledger.accept [(ticket, payload)]).of_same rfl rfl rfl rfl, hnumber⟩,
      fun h => absurd h hready⟩

/-! ## 3. Requests and service messages -/

/-- Frames that are no sends leave the account of the sends as it is. -/
theorem Working.append (h : Working first given s) (others : List Entry) {framer : Framer}
    (hposts : Entry.posts others = []) (hgenuine : ∀ entry ∈ others, entry.Genuine s.identity)
    (hauth : framer.auth = s.framer.auth) (hseq : framer.seqNo = s.framer.seqNo) :
    Working first given { s with framer, written := s.written ++ others.map Entry.raw } := by
  obtain ⟨entries, hledger, hnumber⟩ := h.balance
  have hledger' : Ledger first given (entries ++ others) [] s.queued
      { s with framer, written := s.written ++ others.map Entry.raw } :=
    hledger.append hposts hgenuine rfl rfl rfl (aside_identity _ _ _ _ _ hauth)
  refine ⟨⟨_, hledger', ?_⟩, fun hready => h.ready ?_⟩
  · rw [Entry.posts_append, hposts, List.append_nil, ← hnumber]
    exact hseq
  · exact (aside_isReady _ _ _ _ _ hauth).symm.trans hready

/-- A request of the key exchange is no send. -/
theorem working_writeRequest (now : Instant) {payload : Bytes}
    (hrequest : Entry.IsRequest payload) :
    Act.Triple (Working first given) (write now .keyExchange payload)
      (fun _ => Working first given) fun _ => Halted first given := by
  refine .of_eq fun s hs => (write_triple now .keyExchange payload s).post ?_ ?_
  · rintro msgId - ⟨framer, raw, rfl, hformats⟩
    refine hs.append [.request raw] (Entry.posts_request raw) ?_ hformats.auth hformats.seqNo
    intro entry hmem
    rw [List.mem_singleton.mp hmem]
    exact ⟨msgId, payload, hrequest, hformats.plain rfl⟩
  · rintro - - ⟨framer, rfl, hfails⟩
    obtain ⟨entries, hledger, -⟩ := hs.balance
    exact ⟨entries, [], hledger.of_same rfl rfl rfl (aside_identity _ _ _ _ _ hfails.auth)⟩

/-- Nor are service messages. -/
theorem Working.served {payloads : List Bytes} {s' : Session} (h : Working first given s)
    (hpayloads : ∀ payload ∈ payloads, Entry.IsService payload) (hs : Served payloads s s') :
    Working first given s' := by
  obtain ⟨framer, raws, rfl, hauth, hseq, hraws⟩ := hs
  have hgenuine : ∀ entry ∈ raws.map Entry.service, entry.Genuine s.identity := by
    intro entry hmem
    obtain ⟨raw, hraw, rfl⟩ := List.mem_map.mp hmem
    obtain ⟨payload, hpayload, auth, hauth, msgId, hopen⟩ := exists_of_forall₂ hraws hraw
    exact ⟨auth.key, _, by rw [identity, hauth]; rfl, hopen, hpayloads payload hpayload⟩
  have hworking := h.append (raws.map .service) (Entry.posts_service raws) hgenuine hauth hseq
  rwa [Entry.map_raw_service] at hworking

/-- What is due is answers and acknowledgements. -/
theorem isService_of_due {payloads : List Bytes} (h : s.due = .ok payloads) :
    ∀ payload ∈ payloads, Entry.IsService payload := by
  obtain ⟨answers, hanswers, hpayloads⟩ := due_eq_ok_iff.mp h
  have hpong : ∀ payload ∈ answers, Entry.IsService payload := by
    intro payload hmem
    obtain ⟨pong, -, hpong⟩ := exists_of_forall₂ hanswers hmem
    exact Or.inl ⟨pong, hpong⟩
  rcases hpayloads with ⟨-, rfl⟩ | ⟨-, ack, hack, rfl⟩
  · exact hpong
  · intro payload hmem
    rcases List.mem_append.mp hmem with hanswer | hlast
    · exact hpong payload hanswer
    · rw [List.mem_singleton.mp hlast]
      exact Or.inr ⟨_, hack⟩

/-- Whatever changes nothing that the books speak of. -/
theorem Working.of_same {s' : Session} (h : Working first given s)
    (hwritten : s'.written = s.written) (houtcomes : s'.outcomes = s.outcomes)
    (hsignal : s'.ready = s.ready) (hidentity : s'.identity = s.identity)
    (hqueued : s'.queued = s.queued) (hseq : s'.framer.seqNo = s.framer.seqNo) :
    Working first given s' := by
  obtain ⟨entries, hledger, hnumber⟩ := h.balance
  refine ⟨⟨entries, ?_, hseq.trans hnumber⟩, fun hready => ?_⟩
  · rw [hqueued]
    exact hledger.of_same hwritten houtcomes hsignal hidentity
  · rw [hsignal, hqueued]
    refine h.ready ?_
    rwa [isReady_eq_isSome, ← hidentity, ← isReady_eq_isSome]

theorem working_flush (now : Instant) :
    Act.Triple (Working first given) (flush now) (fun _ => Working first given)
      fun _ => Halted first given := by
  refine .of_eq fun s hs => (flush_triple now s).post ?_ ?_
  all_goals
    have hclear : Working first given { s with pongs := [], acks := [] } :=
      hs.of_same rfl rfl rfl rfl rfl rfl
  · rintro - s' ⟨payloads, hdue, h⟩
    exact hclear.served (isService_of_due hdue) h
  · rintro - s' (rfl | ⟨payloads, front, hdue, hfront, h⟩)
    · exact hs.halted
    · exact (hclear.served (fun payload hmem => isService_of_due hdue payload (hfront.subset hmem))
        h).halted

theorem Working.apply (h : Working first given s) (effect : Effect) :
    Working first given (s.apply effect) := by
  cases effect with
  | renewSalt salt =>
    exact h.of_same rfl rfl rfl (Option.map_map Authorization.identity _ s.framer.auth) rfl rfl
  | acknowledge | answer | deliver => exact h.of_same rfl rfl rfl rfl rfl rfl

/-! ## 4. The key exchange -/

/-- What the key exchange opens with is a request. -/
theorem isRequest_of_start (kx : KeyExchange) :
    Act.Triple (· = kx) KeyExchange.start (fun request _ => Entry.IsRequest request)
      fun _ _ => True := by
  rintro kx tape rfl
  rcases hrun : KeyExchange.start (kx, tape) with ⟨halt | request, t⟩
  · trivial
  · exact Or.inl ⟨_, (KeyExchange.start_eq_ok_iff.mp hrun).2.1⟩

/-- What the key exchange answers with is a request. -/
theorem isRequest_of_handle (now : Instant) (payload : Bytes) (kx : KeyExchange) :
    Act.Triple (· = kx) (KeyExchange.handle now payload)
      (fun next _ => ∀ request, next = some request → Entry.IsRequest request) fun _ _ => True := by
  rintro kx tape rfl
  rcases KeyExchange.handle_cases now payload kx tape with ⟨-, hrun⟩ | ⟨next, t, hrun, haccept⟩ |
    ⟨-, -, e, kx', tape', hrun⟩ | ⟨fault, kx', tape', hrun, -⟩
  all_goals rw [hrun]
  · trivial
  · rcases KeyExchange.dispatch_eq_ok_iff.mp haccept with ⟨-, res, bytes, -, rfl, hres⟩ |
      ⟨-, ok, bytes, -, rfl, hparams⟩ | ⟨-, ok, -, rfl, -⟩
    · obtain ⟨-, key, -, pq, -, f, e₁, -, -, body, -, block, -, data, -, hbytes, -⟩ :=
        KeyExchange.onResPq_eq_ok_iff.mp hres
      rintro request ⟨⟩
      exact Or.inr (Or.inl ⟨_, hbytes⟩)
    · obtain ⟨-, answer, hash, -, inner, -, -, e₁, -, -, -, -, -, key, -, body, -, data, e₂, -,
        hbytes, -⟩ := KeyExchange.onDhParamsOk_eq_ok_iff.mp hparams
      rintro request ⟨⟩
      exact Or.inr (Or.inr ⟨_, hbytes⟩)
    · rintro request ⟨⟩
  · trivial
  · trivial

/-- The books do not speak of the exchange. -/
theorem working_exchanging {α : Type} {a : Act KeyExchange α} {R : α → Prop}
    (hs : Working first given s)
    (ha : Act.Triple (· = s.exchange) a (fun r _ => R r) fun _ _ => True) :
    Act.Triple (· = s) (exchanging a)
      (fun r s' => (Working first given s' ∧ s'.isReady = s.isReady) ∧ R r)
      fun _ => Halted first given := by
  refine .zoom ?_
  rintro s rfl
  have hexchange : ∀ kx, Working first given { s with exchange := kx } := fun _ =>
    hs.of_same rfl rfl rfl rfl rfl rfl
  exact ha.post (fun _ kx hr => ⟨⟨hexchange kx, rfl⟩, hr⟩) fun _ kx _ => (hexchange kx).halted

/-- The key is installed and the signal given, and then everything that waits is written. -/
theorem working_install (now : Instant) {auth : Authorization} :
    Act.Triple (fun s => Working first given s ∧ s.isReady ≠ true)
      (do
        Act.update fun s => { s with framer := s.framer.setAuth auth }.signalReady
        writeQueued now (← Act.state).queued)
      (fun _ => Working first given) fun _ => Halted first given := by
  refine .update_bind (I := fun s => Sending first given [] s.queued s) ?_
    (.state_bind fun s hs => (sending_writeQueued now s.queued).weaken ?_ (fun _ _ h => h.working)
      fun _ _ h => h)
  · rintro s ⟨hs, hready⟩
    obtain ⟨entries, hledger, hnumber⟩ := hs.balance
    have hidentity : s.identity = none := by
      rw [isReady_eq_isSome] at hready
      exact Option.not_isSome_iff_eq_none.mp hready
    -- the signal names a key, and what is sent is sealed under one, so there has been neither
    have hsilent : s.ready = none := by
      rw [← Option.not_isSome_iff_eq_none, Option.isSome_iff_exists]
      rintro ⟨r, hr⟩
      have := (hledger.signal r hr).2
      rw [hidentity] at this
      cases this
    have hposts : Entry.posts entries = [] :=
      Entry.posts_eq_nil fun entry hmem => hidentity ▸ hledger.genuine entry hmem
    have hseq : s.framer.seqNo = first := by
      rw [hnumber, hposts]
      exact counter_zero first
    rw [signalReady_eq (s := { s with framer := s.framer.setAuth auth }) rfl hsilent]
    exact ⟨⟨entries, hledger.install hidentity rfl rfl rfl hseq rfl, hnumber⟩, rfl, rfl, rfl⟩
  · rintro s rfl
    exact hs

/-- A session without a key may get one. -/
theorem working_conclude (now : Instant) :
    Act.Triple (fun s => Working first given s ∧ s.isReady ≠ true) (conclude now)
      (fun _ => Working first given) fun _ => Halted first given := by
  refine .state_bind fun s hs => .ite (fun _ => .ofExcept_bind ?_ fun auth _ => ?_) fun _ =>
    .pure ?_
  · rintro e s rfl
    exact hs.1.halted
  · refine (working_install now).pre ?_
    rintro s rfl
    exact hs
  · rintro s rfl
    exact hs.1

/-- **An answer of the key exchange keeps the books in order.** -/
theorem working_onKeyExchange (now : Instant) (payload : Bytes) :
    Act.Triple (fun s => Working first given s ∧ s.Locked) (onKeyExchange now payload)
      (fun _ => Working first given) fun _ => Halted first given := by
  refine .of_eq ?_
  rintro s ⟨hs, hlocked⟩
  by_cases hready : s.isReady = true
  · rintro s tape rfl
    rw [run_onKeyExchange_closed hlocked hready]
    exact hs.halted
  -- there is no key until the exchange is concluded
  refine onKeyExchange_triple (R := fun next s => (Working first given s ∧ s.isReady ≠ true) ∧
    ∀ request, next = some request → Entry.IsRequest request) ?_ (fun request => ?_) ?_
  · exact (working_exchanging hs (isRequest_of_handle now payload s.exchange)).post
      (fun _ _ h => ⟨⟨h.1.1, h.1.2 ▸ hready⟩, h.2⟩) fun _ _ h => h
  · refine .of_eq fun s' ⟨⟨hs', hready'⟩, hrequest⟩ => ?_
    have hkeeps := (keeps_write aside_isReady now .keyExchange request).triple_eq s'
    exact ((working_writeRequest now (hrequest request rfl)).and hkeeps).weaken
      (fun s heq => ⟨heq ▸ hs', heq⟩) (fun _ s h => ⟨⟨h.1, h.2 ▸ hready'⟩, nofun⟩) fun _ _ h => h.1
  · exact (working_conclude now).pre fun _ h => h.1

/-- **A frame keeps the books in order.** -/
theorem working_onFrame (now : Instant) (raw : Bytes) :
    Act.Triple (fun s => Working first given s ∧ s.Locked) (onFrame now raw)
      (fun _ => Working first given) fun _ => Halted first given := by
  refine onFrame_triple (fun _ _ h => h.1.halted) (working_onKeyExchange now) fun msg => ?_
  have hreceive : Act.Triple (Working first given) (receive msg) (fun _ => Working first given)
      fun _ => Working first given := receive_triple (fun _ effect h => h.apply effect) msg
  exact ((hreceive.halts fun _ _ h => h.halted).bind fun _ => working_flush now).pre fun _ h => h.1

/-- **A session begins with empty books.** -/
theorem working_begin (hfresh : s.Fresh) (now : Instant) :
    Act.Triple (· = s) (begin now) (fun _ => Working s.framer.seqNo [])
      fun _ => Halted s.framer.seqNo [] := by
  have hledger : ∀ s' : Session, s'.written = [] → s'.outcomes = [] →
      (∀ r, s'.ready = some r → r.seqNo = s.framer.seqNo ∧ s'.identity = some r.auth.identity) →
      Ledger s.framer.seqNo [] [] [] [] s' := by
    intro s' hwritten houtcomes hsignal
    exact ⟨hwritten, by simp, rfl, houtcomes, rfl, hsignal, fun hne => absurd rfl hne⟩
  refine begin_triple (R := fun request s' => (Working s.framer.seqNo [] s' ∧
    s'.isReady = s.isReady) ∧ Entry.IsRequest request) hfresh.ready (fun auth hauth => ?_)
    (fun hauth => ?_) fun request => ?_
  · refine ⟨⟨[], ?_, (counter_zero _).symm⟩, fun _ => ⟨rfl, hfresh.queued⟩⟩
    rw [hfresh.queued]
    refine hledger _ hfresh.written hfresh.outcomes ?_
    rintro r ⟨⟩
    exact ⟨rfl, by rw [identity, hauth]; rfl⟩
  · have hs : Working s.framer.seqNo [] s := by
      refine ⟨⟨[], ?_, (counter_zero _).symm⟩, fun hready => ?_⟩
      · rw [hfresh.queued]
        refine hledger s hfresh.written hfresh.outcomes fun r hr => ?_
        rw [hfresh.ready] at hr
        cases hr
      · rw [isReady, hauth] at hready
        cases hready
    exact working_exchanging hs (isRequest_of_start s.exchange)
  · refine .of_eq ?_
    rintro s' ⟨⟨hs', -⟩, hrequest⟩
    exact (working_writeRequest now hrequest).pre fun _ heq => heq ▸ hs'

/-! ## 5. Every history -/

theorem upheld_books (first : UInt32) :
    Upheld (fun given s => Working first given s ∧ s.Locked) (Halted first) (Settled first) where
  send given now ticket payload := by
    exact ((working_send now ticket payload).and
      (locked_of_keeps (keeps_send aside_keyed.calm now ticket payload))).halts fun _ _ h => h.1
  onFrame given now raw := by
    exact ((working_onFrame now raw).and (locked_onFrame now raw)).weaken (fun _ h => ⟨h, h.2⟩)
      (fun _ _ h => h) fun _ _ h => h.1
  deliver _ _ _ h := ⟨h.1.of_same rfl rfl rfl rfl rfl rfl, h.2⟩
  stop _ _ h := h.1.halted
  finish given s others h := by
    obtain ⟨entries, rejections, hledger⟩ := h
    -- what has been waiting comes before what has not even been taken up
    let rest := (s.queued ++ others).map fun send => Rejection.mk send.1 send.2 .sessionClosed
    have hrest : rest.map Rejection.send ++ [] = s.queued ++ others := by
      rw [List.append_nil, List.map_map]
      exact List.map_id _
    have hwaiting := hledger.accept others
    rw [← hrest] at hwaiting
    refine ⟨entries, rejections ++ rest, hwaiting.reject rest rfl ?_ rfl rfl⟩
    rw [List.map_map]
    rfl
  refuse given s ticket payload h := by
    obtain ⟨entries, rejections, hledger⟩ := h
    exact ⟨entries, _, (hledger.accept [(ticket, payload)]).reject
      [⟨ticket, payload, .sessionClosed⟩] rfl rfl rfl rfl⟩

/-- A session that has given the signal, and has a key. -/
def Signalled (r : Ready) (s : Session) : Prop :=
  s.ready = some r ∧ s.isReady = true ∧ s.Locked

/-- What the signal depends on. -/
def signal (s : Session) : Option Ready × Bool × KeyExchange :=
  (s.ready, keyed s)

theorem aside_signal : Aside signal := by
  intro s framer queued written outcomes hauth
  exact Prod.ext rfl (aside_keyed s framer queued written outcomes hauth)

theorem Signalled.of_signal {r : Ready} {s' : Session} (hsame : signal s' = signal s)
    (h : Signalled r s) : Signalled r s' := by
  obtain ⟨hr, hready, hlocked⟩ := h
  obtain ⟨hr', hkeyed⟩ := Prod.mk.inj hsame
  exact ⟨hr'.trans hr, (Prod.mk.inj hkeyed).1.trans hready, hlocked.of_keyed hkeyed⟩

theorem signalled_onFrame (r : Ready) (now : Instant) (raw : Bytes) :
    Act.Triple (Signalled r) (onFrame now raw) (fun _ => Signalled r) fun _ => Signalled r := by
  refine onFrame_triple (fun _ _ h => h) (fun payload => ?_) fun msg => ?_
  · -- where there is a key, there is no key exchange to give the signal again
    rintro s tape ⟨hr, hready, hlocked⟩
    rw [run_onKeyExchange_closed hlocked hready]
    exact ⟨hr, hready, hlocked⟩
  · refine (receive_triple (fun s effect => .of_signal ?_) msg).bind fun _ =>
      (keeps_flush aside_signal.calm (fun _ _ _ => rfl) now).triple fun _ _ => .of_signal
    exact Prod.ext (by cases effect <;> rfl) (keyed_apply s effect)

/-- **The signal is given once.** -/
theorem upheld_signalled (r : Ready) :
    Upheld (fun _ => Signalled r) (fun _ => Signalled r) fun _ => Signalled r where
  send _ now ticket payload :=
    (keeps_send aside_signal.calm now ticket payload).triple fun _ _ => .of_signal
  onFrame _ now raw := signalled_onFrame r now raw
  deliver _ _ _ h := h
  stop _ _ h := h
  finish _ _ _ h := h
  refuse _ _ _ _ h := h

end Session

open Session Connection

/-- The account of all sends in a history. -/
structure Setting.Account (g : Setting) (events : List Event) (entries : List Entry)
    (rejections : List Rejection) (waiting : List (Ticket × Bytes)) : Prop where
  /-- These are all frames on the line. -/
  written : (g.after events).session.written = entries.map Entry.raw
  /-- The other side finds in each frame what the entry says. -/
  genuine : ∀ entry ∈ entries, entry.Genuine (g.after events).session.identity
  /-- The sends that have been written come first, in the order of the commands. -/
  balance : sends events =
    (Entry.posts entries).map Post.send ++ rejections.map Rejection.send ++ waiting
  /-- Each of them has one outcome, with the identifier in its envelope; those that have been
  rejected have an error, and those that wait have none. -/
  outcomes : (g.after events).session.outcomes =
    (Entry.posts entries).map Post.outcome ++ rejections.map Rejection.outcome
  numbers : ∀ n post, (Entry.posts entries)[n]? = some post →
    post.seqNo = g.session.framer.seqNo + 2 * UInt32.ofNat (n + 1) - 1
  /-- Nothing is written before the signal. -/
  ready : Entry.posts entries ≠ [] → (g.after events).session.ready.isSome = true
  /-- The signal is given for the key, before anything has been counted, and only once. -/
  signal : ∀ r, (g.after events).session.ready = some r → r.seqNo = g.session.framer.seqNo ∧
    (g.after events).session.identity = some r.auth.identity ∧
    ∀ more, (g.after (events ++ more)).session.ready = some r
  /-- A session at work has rejected nothing. -/
  working : (g.after events).ended = none → rejections = []
  /-- A session that is ready and has nothing to do has written everything. -/
  idle : (g.after events).ended = none → (g.after events).session.ready.isSome = true →
    (g.after events).work? = none → waiting = []
  /-- A snapshot has the counter after all sends that have been written. -/
  snapshot : ∀ now ticket others, (g.after events).work? = some (.serve (.snapshot ticket) others) →
    ∃ snapshot, (g.after (events ++ [.turn now])).snapshots =
      (g.after events).snapshots ++ [(ticket, snapshot)] ∧
      snapshot.seqNo = g.session.framer.seqNo + 2 * UInt32.ofNat (Entry.posts entries).length
  /-- At the end nothing waits. -/
  ended : ∀ how, (g.after events).ended = some how → waiting = []

/-- A session that has nothing to do has served all commands. -/
theorem Connection.commands_eq_nil {c : Connection} (hended : c.ended = none)
    (hidle : c.work? = none) : c.commands = [] := by
  unfold work? serving? at hidle
  grind

/-- A session that serves a command has not ended. -/
theorem Connection.ended_of_serve {c : Connection} {command : Command} {others : List Command}
    (hwork : c.work? = some (.serve command others)) : c.ended = none := by
  unfold work? at hwork
  grind

/-- A signal that has been given is not given again. -/
theorem Setting.ready_after {g : Setting} {events : List Event} {r : Ready}
    (hsignal : Signalled r (g.after events).session) (more : List Event) :
    (g.after (events ++ more)).session.ready = some r := by
  rw [after_append]
  have hholds : Holds (fun _ => Signalled r) (fun _ => Signalled r)
      ((g.after events).commands.filterMap Command.send?) (g.after events) :=
    ⟨fun _ => ⟨[], hsignal, rfl⟩, fun _ _ => hsignal⟩
  exact (holds_happens (upheld_signalled r) hholds more).always.1

theorem Session.isReady_of_identity {s : Session} {identity : AuthKey × UInt64}
    (h : s.identity = some identity) : s.isReady = true := by
  rw [isReady_eq_isSome, h]
  rfl

/-- What the ledger says of a history. -/
theorem Setting.account_of_ledger {g : Setting} {events : List Event} {entries : List Entry}
    {rejections : List Rejection} {waiting : List (Ticket × Bytes)}
    (h : Ledger g.session.framer.seqNo (sends events) entries rejections waiting
      (g.after events).session)
    (hworking : (g.after events).ended = none → rejections = [] ∧
      (g.after events).session.framer.seqNo =
        counter g.session.framer.seqNo (Entry.posts entries).length ∧
      ((g.after events).session.ready.isSome = true → (g.after events).work? = none → waiting = []))
    (hended : ∀ how, (g.after events).ended = some how → waiting = []) :
    g.Account events entries rejections waiting where
  written := h.written
  genuine := h.genuine
  balance := h.balance
  outcomes := h.outcomes
  numbers := by
    intro n post hpost
    have hnumber : ((Entry.posts entries).map Post.seqNo)[n]? = some post.seqNo := by
      rw [List.getElem?_map, hpost]
      rfl
    have hlt : n < (Entry.posts entries).length := (List.getElem?_eq_some_iff.mp hpost).1
    rw [h.numbers, List.getElem?_map, List.getElem?_range hlt, Option.map_some,
      Option.some.injEq] at hnumber
    rw [← hnumber, counter_add_one]
  ready := h.ready
  signal := by
    intro r hr
    obtain ⟨hfirst, hidentity⟩ := h.signal r hr
    exact ⟨hfirst, hidentity, ready_after ⟨hr, isReady_of_identity hidentity, g.locked events⟩⟩
  working hnone := (hworking hnone).1
  idle hnone := (hworking hnone).2.2
  snapshot := by
    intro now ticket others hwork
    refine ⟨(g.after events).session.snapshot, ?_, (hworking (ended_of_serve hwork)).2.1⟩
    rw [after_append]
    simp only [List.foldl_cons, List.foldl_nil, happen, hwork]
    rfl
  ended := hended

/-- **Every send is accounted for.**  In every history the sends that have been written are the
first ones that the client has asked for, in this order; at the end each of the others has come to
nothing, and its sender knows that. -/
theorem Setting.exists_account (g : Setting) (events : List Event) :
    ∃ entries rejections waiting, g.Account events entries rejections waiting := by
  have hbegin := ((working_begin g.fresh g.now).and (locked_begin g.fresh g.now)).weaken
    (fun _ h => ⟨h, h⟩) (fun _ _ h => h) fun _ _ h => h.1
  have hholds := g.holds_after hbegin (upheld_books g.session.framer.seqNo) events
  cases hended : (g.after events).ended with
  | none =>
    obtain ⟨taken, ⟨hworking, -⟩, hsends⟩ := hholds.working hended
    obtain ⟨entries, hledger, hnumber⟩ := hworking.balance
    refine ⟨entries, [], _, account_of_ledger (hsends ▸ hledger.accept _) (fun _ => ?_)
      fun how hhow => ?_⟩
    · refine ⟨rfl, hnumber, fun hready hidle => ?_⟩
      obtain ⟨r, hr⟩ := Option.isSome_iff_exists.mp hready
      have hqueued := (hworking.ready (isReady_of_identity (hledger.signal r hr).2)).2
      rw [hqueued, commands_eq_nil hended hidle]
      rfl
    · rw [hended] at hhow
      cases hhow
  | some how =>
    obtain ⟨entries, rejections, hledger⟩ := hholds.ended how hended
    refine ⟨entries, rejections, [], account_of_ledger hledger (fun hnone => ?_) fun _ _ => rfl⟩
    rw [hended] at hnone
    cases hnone

end Mtproto
