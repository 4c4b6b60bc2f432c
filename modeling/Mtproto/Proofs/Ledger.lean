import Mathlib.Tactic.Common
import Mtproto.Proofs.Framer
import Mtproto.Schema.Handshake
import Mtproto.Session.Basic

/-!
# The books of a session

What a session has written is a list of frames, and a frame does not say what it has been written
for.  The books do: an `Entry` is a frame and its purpose, a post of the application, a request of
the key exchange or a service message.  An entry is `Genuine` if the other side, who has the key,
can see in the frame what the entry says.

`Ledger` is the account of the sends that a session has been given.  Each of them has been posted,
has been rejected or is waiting, and they are in the order in which they were given; nothing is
counted twice and nothing is missing.  The outcomes that the senders have learned are those of the
posts and of the rejections.

* `Ledger.append`, `Ledger.post`, `Ledger.reject`, `Ledger.accept`, `Ledger.install`: what the steps
  of a session do to the books.  The module on sends puts them together.
-/

namespace Mtproto

open Wire

/-! ## 1. Entries -/

/-- A send that has been written. -/
structure Post where
  ticket : Ticket
  payload : Bytes
  msgId : UInt64
  seqNo : UInt32
  raw : Bytes

/-- The send that has been written. -/
def Post.send (p : Post) : Ticket × Bytes := (p.ticket, p.payload)

/-- What the sender has learned. -/
def Post.outcome (p : Post) : Ticket × Except Error UInt64 := (p.ticket, .ok p.msgId)

/-- A send that has come to nothing. -/
structure Rejection where
  ticket : Ticket
  payload : Bytes
  error : Error

/-- The send that has come to nothing. -/
def Rejection.send (r : Rejection) : Ticket × Bytes := (r.ticket, r.payload)

/-- What the sender has learned. -/
def Rejection.outcome (r : Rejection) : Ticket × Except Error UInt64 := (r.ticket, .error r.error)

/-- A frame that has been written, and what for. -/
inductive Entry where
  /-- A request of the key exchange. -/
  | request (raw : Bytes)
  /-- A service message. -/
  | service (raw : Bytes)
  /-- A send. -/
  | content (post : Post)

namespace Entry

/-- The frame. -/
def raw : Entry → Bytes
  | request raw | service raw => raw
  | content post => post.raw

/-- The send, if the frame has been written for one. -/
def post? : Entry → Option Post
  | content post => some post
  | request _ | service _ => none

/-- The sends among the entries. -/
def posts (entries : List Entry) : List Post :=
  entries.filterMap post?

@[simp] theorem posts_append (entries others : List Entry) :
    posts (entries ++ others) = posts entries ++ posts others :=
  List.filterMap_append

@[simp] theorem posts_content (post : Post) : posts [content post] = [post] := rfl

@[simp] theorem posts_request (raw : Bytes) : posts [request raw] = [] := rfl

@[simp] theorem posts_service (raws : List Bytes) : posts (raws.map service) = [] := by
  rw [posts, List.filterMap_map]
  exact List.filterMap_eq_nil_iff.mpr fun _ _ => rfl

@[simp] theorem map_raw_service (raws : List Bytes) : (raws.map service).map raw = raws := by
  rw [List.map_map]
  exact List.map_id raws

/-- A payload is a request of the key exchange. -/
def IsRequest (payload : Bytes) : Prop :=
  (∃ v : ReqPq, boxedBytes v = .ok payload) ∨ (∃ v : ReqDhParams, boxedBytes v = .ok payload) ∨
    ∃ v : SetClientDhParams, boxedBytes v = .ok payload

/-- A payload is an answer to a ping or an acknowledgement. -/
def IsService (payload : Bytes) : Prop :=
  (∃ v : Pong, boxedBytes v = .ok payload) ∨ ∃ v : MsgsAck, boxedBytes v = .ok payload

/-- The other side finds in a frame what the entry says.  The identity is the key and the session,
if there are any: without them there are requests only. -/
def Genuine (identity : Option (AuthKey × UInt64)) : Entry → Prop
  | request raw => ∃ msgId payload, IsRequest payload ∧ PlainEnvelope.wrap msgId payload = .ok raw
  | service raw => ∃ key env, identity = some (key, env.sessionId) ∧
      Envelope.decrypt key .clientToServer raw = .ok env ∧ IsService env.payload
  | content post => ∃ key env, identity = some (key, env.sessionId) ∧
      Envelope.decrypt key .clientToServer post.raw = .ok env ∧
      env.msgId = post.msgId ∧ env.seqNo = post.seqNo ∧ env.payload = post.payload

/-- Entries from before there was a key remain genuine. -/
theorem Genuine.of_none {entry : Entry} (h : entry.Genuine none)
    (identity : Option (AuthKey × UInt64)) : entry.Genuine identity := by
  cases entry with
  | request raw => exact h
  | service raw =>
    obtain ⟨key, env, hnone, -⟩ := h
    cases hnone
  | content post =>
    obtain ⟨key, env, hnone, -⟩ := h
    cases hnone

/-- Where there has been no key, nothing has been sent. -/
theorem posts_eq_nil {entries : List Entry} (h : ∀ entry ∈ entries, entry.Genuine none) :
    posts entries = [] := by
  refine List.filterMap_eq_nil_iff.mpr fun entry hmem => ?_
  cases entry with
  | request | service => rfl
  | content post =>
    obtain ⟨key, env, hnone, -⟩ := h _ hmem
    cases hnone

end Entry

/-! ## 2. Numbers -/

/-- The counter after `n` sends, if it has begun at `first`. -/
def counter (first : UInt32) (n : Nat) : UInt32 :=
  first + 2 * UInt32.ofNat n

theorem counter_zero (first : UInt32) : counter first 0 = first := by
  simp [counter]

theorem counter_succ (first : UInt32) (n : Nat) : counter first (n + 1) = counter first n + 2 := by
  simp only [counter, UInt32.ofNat_add]
  grind

/-- The sequence number of a send that has `n` others before it. -/
theorem counter_add_one (first : UInt32) (n : Nat) :
    counter first n + 1 = first + 2 * UInt32.ofNat (n + 1) - 1 := by
  simp only [counter, UInt32.ofNat_add]
  grind

/-! ## 3. The ledger -/

/-- The key and the session that an authorization stands for; only its salt may change. -/
def Authorization.identity (auth : Authorization) : AuthKey × UInt64 :=
  (auth.key, auth.sessionId)

namespace Session

/-- The key and the session, if there are any. -/
def identity (s : Session) : Option (AuthKey × UInt64) :=
  s.framer.auth.map Authorization.identity

theorem isReady_eq_isSome (s : Session) : s.isReady = s.identity.isSome :=
  (Option.isSome_map ..).symm

/-- The account of the sends that a session has been given, the first of them after the counter was
at `first`. -/
structure Ledger (first : UInt32) (given : List (Ticket × Bytes)) (entries : List Entry)
    (rejections : List Rejection) (waiting : List (Ticket × Bytes)) (s : Session) : Prop where
  written : s.written = entries.map Entry.raw
  genuine : ∀ entry ∈ entries, entry.Genuine s.identity
  balance : given = (Entry.posts entries).map Post.send ++ rejections.map Rejection.send ++ waiting
  outcomes : s.outcomes = (Entry.posts entries).map Post.outcome ++ rejections.map Rejection.outcome
  numbers : (Entry.posts entries).map Post.seqNo =
    (List.range (Entry.posts entries).length).map fun n => counter first n + 1
  /-- The signal was given before the first send, and for this key. -/
  signal : ∀ r, s.ready = some r → r.seqNo = first ∧ s.identity = some r.auth.identity
  ready : Entry.posts entries ≠ [] → s.ready.isSome = true

namespace Ledger

variable {first : UInt32} {given waiting : List (Ticket × Bytes)} {entries : List Entry}
  {rejections : List Rejection} {s s' : Session}

/-- What the account does not speak of may change. -/
theorem of_same (h : Ledger first given entries rejections waiting s)
    (hwritten : s'.written = s.written) (houtcomes : s'.outcomes = s.outcomes)
    (hready : s'.ready = s.ready) (hidentity : s'.identity = s.identity) :
    Ledger first given entries rejections waiting s' where
  written := hwritten.trans h.written
  genuine := hidentity ▸ h.genuine
  balance := h.balance
  outcomes := houtcomes.trans h.outcomes
  numbers := h.numbers
  signal := by
    rw [hready, hidentity]
    exact h.signal
  ready := by
    rw [hready]
    exact h.ready

/-- Frames have been written that are no sends. -/
theorem append (h : Ledger first given entries rejections waiting s) {others : List Entry}
    (hposts : Entry.posts others = []) (hgenuine : ∀ entry ∈ others, entry.Genuine s.identity)
    (hwritten : s'.written = s.written ++ others.map Entry.raw)
    (houtcomes : s'.outcomes = s.outcomes) (hready : s'.ready = s.ready)
    (hidentity : s'.identity = s.identity) :
    Ledger first given (entries ++ others) rejections waiting s' := by
  have hsame : Entry.posts (entries ++ others) = Entry.posts entries := by
    rw [Entry.posts_append, hposts, List.append_nil]
  constructor
  · rw [hwritten, h.written, List.map_append]
  · rw [hidentity]
    intro entry hmem
    rcases List.mem_append.mp hmem with hold | hnew
    · exact h.genuine entry hold
    · exact hgenuine entry hnew
  · rw [hsame]
    exact h.balance
  · rw [hsame, houtcomes]
    exact h.outcomes
  · rw [hsame]
    exact h.numbers
  · rw [hready, hidentity]
    exact h.signal
  · rw [hsame, hready]
    exact h.ready

/-- The first send that waits has been written. -/
theorem post {post : Post} (h : Ledger first given entries [] (post.send :: waiting) s)
    (hgenuine : (Entry.content post).Genuine s.identity)
    (hnumber : post.seqNo = counter first (Entry.posts entries).length + 1)
    (hsignalled : s.ready.isSome = true) (hwritten : s'.written = s.written ++ [post.raw])
    (houtcomes : s'.outcomes = s.outcomes ++ [post.outcome]) (hready : s'.ready = s.ready)
    (hidentity : s'.identity = s.identity) :
    Ledger first given (entries ++ [.content post]) [] waiting s' where
  written := by
    rw [hwritten, h.written]
    simp [Entry.raw]
  genuine := by
    rw [hidentity]
    intro entry hmem
    rcases List.mem_append.mp hmem with hold | hnew
    · exact h.genuine entry hold
    · rw [List.mem_singleton.mp hnew]
      exact hgenuine
  balance := by
    rw [h.balance]
    simp
  outcomes := by
    rw [houtcomes, h.outcomes]
    simp
  numbers := by
    rw [Entry.posts_append, Entry.posts_content, List.map_append, h.numbers, List.length_append,
      List.length_singleton, List.range_succ, List.map_append]
    simp [hnumber]
  signal := by
    rw [hready, hidentity]
    exact h.signal
  ready := by
    rw [hready]
    exact fun _ => hsignalled

/-- The first sends that wait have come to nothing. -/
theorem reject (others : List Rejection)
    (h : Ledger first given entries rejections (others.map Rejection.send ++ waiting) s)
    (hwritten : s'.written = s.written)
    (houtcomes : s'.outcomes = s.outcomes ++ others.map Rejection.outcome)
    (hready : s'.ready = s.ready) (hidentity : s'.identity = s.identity) :
    Ledger first given entries (rejections ++ others) waiting s' where
  written := hwritten.trans h.written
  genuine := hidentity ▸ h.genuine
  balance := by
    rw [h.balance]
    simp
  outcomes := by
    rw [houtcomes, h.outcomes]
    simp
  numbers := h.numbers
  signal := by
    rw [hready, hidentity]
    exact h.signal
  ready := by
    rw [hready]
    exact h.ready

/-- Another send waits. -/
theorem accept (h : Ledger first given entries rejections waiting s)
    (others : List (Ticket × Bytes)) :
    Ledger first (given ++ others) entries rejections (waiting ++ others) s where
  written := h.written
  genuine := h.genuine
  balance := by rw [h.balance, List.append_assoc _ waiting]
  outcomes := h.outcomes
  numbers := h.numbers
  signal := h.signal
  ready := h.ready

/-- A key has been installed, and the signal given. -/
theorem install (h : Ledger first given entries rejections waiting s) (hnone : s.identity = none)
    (hwritten : s'.written = s.written) (houtcomes : s'.outcomes = s.outcomes) {r : Ready}
    (hready : s'.ready = some r) (hfirst : r.seqNo = first)
    (hidentity : s'.identity = some r.auth.identity) :
    Ledger first given entries rejections waiting s' where
  written := hwritten.trans h.written
  genuine entry hmem := (hnone ▸ h.genuine entry hmem).of_none _
  balance := h.balance
  outcomes := houtcomes.trans h.outcomes
  numbers := h.numbers
  signal := by
    rw [hready]
    rintro r' ⟨⟩
    exact ⟨hfirst, hidentity⟩
  ready _ := by rw [hready]; rfl

end Ledger

end Session

end Mtproto
