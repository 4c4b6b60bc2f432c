import Mathlib.Tactic.Common
import Mtproto.Proofs.Buffers
import Mtproto.Proofs.Frames
import Mtproto.Proofs.Offsets
import Mtproto.Proofs.Sends

/-!
# What is sent is whole words

The transport takes frames of whole 32-bit words only (`writeFrame` refuses all others), and nothing
that puts a frame together asks for that.  This module shows that it comes out right all the same.

* What the writer of a request of the key exchange appends is whole words, because every primitive
  pads to words (`Whole`, `whole_of_isRequest`).
* A plain envelope puts five words in front of a request.
* An encrypted envelope is six words and then whole blocks of the cipher, whatever it holds
  (`Envelope.Sealed.length_raw_eq`).

So every frame that a session writes in any history, and every frame that `Framer.format` makes for
any kind of message, is `Framable`: if it is not too long for the transport it gets a header, and
the header announces its length in words (`sent_framable`).
-/

namespace Mtproto

open Wire

/-! ## 1. What a request is written in -/

namespace Wire.Writer

/-- What has been written are whole words. -/
def Whole (w : Writer) : Prop :=
  w.bytes.length % 4 = 0

theorem whole_empty : empty.Whole := rfl

variable {w : Writer}

theorem Whole.raw (h : w.Whole) {bs : Bytes} (hbs : bs.length % 4 = 0) : (w.raw bs).Whole := by
  unfold Whole Writer.raw
  split
  · rw [List.length_append, Nat.add_mod, h, hbs]
  · exact h

theorem Whole.word32 (h : w.Whole) (v : UInt32) : (w.word32 v).Whole :=
  h.raw (by rw [Bytes.length_le])

theorem Whole.word64 (h : w.Whole) (v : UInt64) : (w.word64 v).Whole :=
  h.raw (by rw [Bytes.length_le])

theorem Whole.octets (h : w.Whole) {n : Nat} (hn : n % 4 = 0) (v : Octets n) :
    (w.octets v).Whole :=
  h.raw (by rw [v.length_bytes, hn])

/-- A blob is padded; one that is too long is not written. -/
theorem Whole.blob (h : w.Whole) (data : Bytes) : (w.blob data).Whole := by
  rcases Nat.lt_or_ge maxBlobLength data.length with hlong | hshort
  · have hencode : encodeBlob data = .error (.overflow data.length 24) := if_pos hlong
    rw [Writer.blob, hencode]
    change (w.fail _).Whole
    unfold fail
    split <;> exact h
  · rw [Writer.blob, encodeBlob_of_le hshort]
    exact h.raw (isBlob_iff.mp (isBlob_blobBytes hshort)).1

theorem bytes_of_finish {bs : Bytes} (h : w.finish = .ok bs) : w.bytes = bs := by
  unfold finish at h
  split at h
  · exact Except.ok.inj h
  · cases h

end Wire.Writer

open Wire.Writer in
/-- **A request is whole words.** -/
theorem whole_of_isRequest {payload : Bytes} (h : Entry.IsRequest payload) :
    payload.length % 4 = 0 := by
  rcases h with ⟨v, hv⟩ | ⟨v, hv⟩ | ⟨v, hv⟩
  · rw [← bytes_of_finish hv]
    exact (whole_empty.word32 _).octets rfl v.nonce
  · have hnonces := ((whole_empty.word32 (Tagged.tag ReqDhParams)).octets rfl v.nonce).octets rfl
      v.serverNonce
    rw [← bytes_of_finish hv]
    exact (((hnonces.blob v.p).blob v.q).word64 v.publicKeyFingerprint).blob v.encryptedData
  · have hnonces := ((whole_empty.word32 (Tagged.tag SetClientDhParams)).octets rfl v.nonce).octets
      rfl v.serverNonce
    rw [← bytes_of_finish hv]
    exact hnonces.blob v.encryptedData

/-! ## 2. What an envelope adds -/

/-- Five words stand in front of a payload in a plain envelope. -/
theorem PlainEnvelope.length_of_wrap {msgId : UInt64} {payload raw : Bytes}
    (h : wrap msgId payload = .ok raw) : raw.length = 20 + payload.length := by
  rcases Nat.lt_or_ge payload.length (2 ^ 32) with hlt | hlong
  · rw [wrap_of_lt hlt] at h
    rw [← Except.ok.inj h]
    simp [text]
    omega
  · rw [wrap_of_le hlong] at h
    cases h

/-- An encrypted envelope is 24 bytes and whole blocks. -/
theorem Envelope.Sealed.length_raw_eq {key : AuthKey} {d : Direction} {env : Envelope}
    {pad raw : Bytes} (h : Sealed key d env pad raw) :
    raw.length = 24 + 16 * ((32 + env.payload.length + 15) / 16) := by
  have hraw := h.length_raw
  have hmod := h.length_mod
  have hpad := h.padding_lt
  rw [outerHeader, innerHeader] at hraw
  rw [innerHeader, block] at hmod
  rw [block] at hpad
  omega

namespace Framer

/-- How long the envelope of a payload is. -/
def envelopeLength (kind : MsgKind) (payload : Bytes) : Nat :=
  if kind = .keyExchange then 20 + payload.length
  else 24 + 16 * ((32 + payload.length + 15) / 16)

theorem length_of_format {now : Instant} {kind : MsgKind} {payload : Bytes} {f f' : Framer}
    {e e' : Entropy} {msgId : UInt64} {raw : Bytes}
    (h : format now kind payload (f, e) = (.ok (msgId, raw), f', e')) :
    raw.length = envelopeLength kind payload := by
  have hformats := (format_triple now kind payload f).ok rfl h
  unfold envelopeLength
  split
  · rename_i hkind
    exact PlainEnvelope.length_of_wrap (hformats.plain hkind)
  · rename_i hkind
    obtain ⟨auth, -, hopen⟩ := hformats.encrypted hkind
    obtain ⟨pad, hsealed⟩ := Envelope.decrypt_eq_ok_iff_sealed.mp hopen
    exact hsealed.length_raw_eq

theorem envelopeLength_mod {kind : MsgKind} {payload : Bytes}
    (h : kind = .keyExchange → payload.length % 4 = 0) : envelopeLength kind payload % 4 = 0 := by
  unfold envelopeLength
  split
  · rename_i hkind
    have := h hkind
    omega
  · omega

end Framer

/-! ## 3. What a header announces -/

namespace Transport

/-- A header announces a number of words: in one byte below 127, or behind the byte 127 in three
bytes, least significant first. -/
inductive Announces : Bytes → Nat → Prop
  | short {b : UInt8} (h : b < 0x7f) : Announces [b] b.toNat
  | long (x y z : UInt8) : Announces [0x7f, x, y, z] (Bytes.ofLE [x, y, z])

theorem announces_headerOf {words : Nat} (h : words < 2 ^ 24) :
    Announces (headerOf words) words := by
  unfold headerOf
  split
  · rename_i hshort
    have htoNat : (UInt8.ofNat words).toNat = words :=
      UInt8.toNat_ofNat_of_lt' (lt_trans hshort (by decide))
    have hlt : UInt8.ofNat words < 0x7f := by
      rw [UInt8.lt_iff_toNat_lt, htoNat]
      exact hshort
    have hannounces := Announces.short hlt
    rwa [htoNat] at hannounces
  · have hannounces := Announces.long (UInt8.ofNat words) (UInt8.ofNat (words / 256))
      (UInt8.ofNat (words / 256 / 256))
    change Announces (longLength :: Bytes.le 3 words) (Bytes.ofLE (Bytes.le 3 words)) at hannounces
    rwa [Bytes.ofLE_le_of_lt (by omega)] at hannounces

/-- A frame that is whole words.  It has a header exactly if it is not too long, and the header
announces its words, to whoever reads it. -/
structure Framable (raw : Bytes) : Prop where
  whole : raw.length % 4 = 0
  header : (∃ header, frameHeader raw.length = .ok header) ↔ raw.length ≤ 4 * (2 ^ 24 - 1)
  announced : ∀ header, frameHeader raw.length = .ok header →
    Announces header (raw.length / 4) ∧
      ∀ limit stream, scanFrame limit (header ++ stream) = scanBody limit (raw.length / 4) stream

/-- **What is whole words can be framed.** -/
theorem framable_of_whole {raw : Bytes} (h : raw.length % 4 = 0) : Framable raw := by
  rcases Nat.lt_or_ge (4 * (2 ^ 24 - 1)) raw.length with hlong | hshort
  · obtain ⟨e, he⟩ := frameHeader_eq_error (Or.inr hlong)
    refine ⟨h, ⟨?_, fun hle => absurd hlong (Nat.not_lt.mpr hle)⟩, ?_⟩
    · rintro ⟨header, hheader⟩
      rw [he] at hheader
      cases hheader
    · intro header hheader
      rw [he] at hheader
      cases hheader
  · have hok := frameHeader_eq_ok h hshort
    refine ⟨h, ⟨fun _ => hshort, fun _ => ⟨_, hok⟩⟩, fun header hheader => ?_⟩
    rw [hok] at hheader
    cases hheader
    exact ⟨announces_headerOf (by omega), scanFrame_headerOf (by omega)⟩

end Transport

open Transport (Framable framable_of_whole)

/-! ## 4. What is sent -/

/-- What a key exchange asks the server, at its start or when it has handled an answer. -/
inductive KeyExchange.Asks : Bytes → Prop
  | start {kx kx' : KeyExchange} {e e' : Entropy} {request : Bytes}
      (h : start (kx, e) = (.ok request, kx', e')) : Asks request
  | handle {kx kx' : KeyExchange} {e e' : Entropy} {now : Instant} {answer request : Bytes}
      (h : handle now answer (kx, e) = (.ok (some request), kx', e')) : Asks request

theorem KeyExchange.Asks.isRequest {request : Bytes} (h : Asks request) :
    Entry.IsRequest request := by
  cases h with
  | start h => exact (Session.isRequest_of_start _).ok rfl h
  | handle h => exact (Session.isRequest_of_handle _ _ _).ok rfl h request rfl

/-- What can be opened is whole words. -/
theorem Envelope.whole_of_decrypt {key : AuthKey} {d : Direction} {env : Envelope} {raw : Bytes}
    (h : decrypt key d raw = .ok env) : raw.length % 4 = 0 := by
  obtain ⟨pad, hsealed⟩ := decrypt_eq_ok_iff_sealed.mp h
  have hlength := hsealed.length_raw_eq
  omega

theorem Entry.Genuine.whole {identity : Option (AuthKey × UInt64)} {entry : Entry}
    (h : entry.Genuine identity) : entry.raw.length % 4 = 0 := by
  cases entry with
  | request frame =>
    obtain ⟨msgId, payload, hrequest, hwrap⟩ := h
    have hwhole := whole_of_isRequest hrequest
    have hlength := PlainEnvelope.length_of_wrap hwrap
    change frame.length % 4 = 0
    omega
  | service frame =>
    obtain ⟨key, env, -, hopen, -⟩ := h
    exact Envelope.whole_of_decrypt hopen
  | content post =>
    obtain ⟨key, env, -, hopen, -⟩ := h
    exact Envelope.whole_of_decrypt hopen

open Session Connection in
/-- In every history there is an account of the sends that the session has been given. -/
theorem Setting.exists_ledger (g : Setting) (events : List Event) :
    ∃ entries rejections waiting,
      Ledger g.session.framer.seqNo (sends events) entries rejections waiting
        (g.after events).session := by
  have hbegin := ((working_begin g.fresh g.now).and (locked_begin g.fresh g.now)).weaken
    (fun _ h => ⟨h, h⟩) (fun _ _ h => h) fun _ _ h => h.1
  have hholds := g.holds_after hbegin (upheld_books g.session.framer.seqNo) events
  cases hended : (g.after events).ended with
  | none =>
    obtain ⟨taken, ⟨hworking, -⟩, hsends⟩ := hholds.working hended
    obtain ⟨entries, hledger, -⟩ := hworking.balance
    exact ⟨entries, [], _, hsends ▸ hledger.accept _⟩
  | some how =>
    obtain ⟨entries, rejections, hledger⟩ := hholds.ended how hended
    exact ⟨entries, rejections, [], hledger⟩

theorem Setting.whole_of_written {g : Setting} {events : List Connection.Event} {raw : Bytes}
    (h : raw ∈ (g.after events).session.written) : raw.length % 4 = 0 := by
  obtain ⟨entries, rejections, waiting, hledger⟩ := g.exists_ledger events
  rw [hledger.written] at h
  obtain ⟨entry, hmem, rfl⟩ := List.mem_map.mp h
  exact (hledger.genuine entry hmem).whole

open Framer in
/-- **What is sent can be framed.**

* What a key exchange asks is whole words, and so is its envelope, from whatever framer it comes.
* The envelope of a payload that is not of the key exchange is whole words, whatever the length of
  the payload.
* There is an envelope if there is a time for it, a key unless it is of the key exchange, and if the
  length of the payload can be written.
* Every frame that a session has written, in any history, is whole words.

Whole words have a header exactly if they are not too long, and the header announces them. -/
theorem sent_framable :
    (∀ request, KeyExchange.Asks request → request.length % 4 = 0 ∧
      ∀ now f f' e e' msgId raw,
        format now .keyExchange request (f, e) = (.ok (msgId, raw), f', e') →
        raw.length = 20 + request.length ∧ Framable raw) ∧
    (∀ now kind payload f f' e e' msgId raw, kind ≠ MsgKind.keyExchange →
      format now kind payload (f, e) = (.ok (msgId, raw), f', e') →
      raw.length = 24 + 16 * ((32 + payload.length + 15) / 16) ∧ Framable raw) ∧
    (∀ (now : Instant) (kind : MsgKind) (payload : Bytes) (f : Framer) (e : Entropy),
      now.Reaches f.msgIds.timeOffset.toInt → kind = .keyExchange ∨ f.auth ≠ none →
      payload.length < 2 ^ 32 →
      ∃ msgId raw s, format now kind payload (f, e) = (.ok (msgId, raw), s)) ∧
    ∀ (g : Setting) (events : List Connection.Event),
      ∀ raw ∈ (g.after events).session.written, Framable raw := by
  refine ⟨fun request hasks => ?asked, ?payload, ?exist, ?history⟩
  case asked =>
    have hwhole := whole_of_isRequest hasks.isRequest
    refine ⟨hwhole, fun now f f' e e' msgId raw hformat => ?_⟩
    have hlength := length_of_format hformat
    refine ⟨hlength, framable_of_whole ?_⟩
    rw [hlength]
    exact envelopeLength_mod fun _ => hwhole
  case payload =>
    intro now kind payload f f' e e' msgId raw hkind hformat
    have hlength := length_of_format hformat
    refine ⟨by rw [hlength, envelopeLength, if_neg hkind], framable_of_whole ?_⟩
    rw [hlength]
    exact envelopeLength_mod fun h => absurd h hkind
  case exist =>
    intro now kind payload f e hclock hkey hlength
    exact exists_format hclock hkey hlength
  case history =>
    intro g events raw hmem
    exact framable_of_whole (Setting.whole_of_written hmem)

/-- A session that trusts no key, at work since 2020. -/
def Setting.bare : Setting where
  keys := []
  line _ := none
  preparations := []
  limits := ⟨64, 1⟩
  tape := .starting []
  now := ⟨1590000000, 0⟩

open Framer in
/-- The opening of a key exchange, five bytes under a key, and the first frame of a session. -/
theorem sent_framable_around :
    let now : Instant := ⟨1590000000, 0⟩
    let auth : Authorization := ⟨⟨.zero 256⟩, 1, 2, 0⟩
    (∃ request, KeyExchange.Asks request ∧ request.length % 4 = 0 ∧
      ∃ msgId raw f' e',
        format now .keyExchange request (({} : Framer), .starting []) =
          (.ok (msgId, raw), f', e') ∧ raw.length = 20 + request.length ∧ Framable raw) ∧
    (∃ msgId raw f' e', format now .service [1, 2, 3, 4, 5] (({} : Framer).setAuth auth,
        .starting []) = (.ok (msgId, raw), f', e') ∧ raw.length = 72 ∧ Framable raw) ∧
    ∃ raw ∈ (Setting.bare.after []).session.written, Framable raw := by
  intro now auth
  obtain ⟨hasked, hpayload, hexist, hhistory⟩ := sent_framable
  refine ⟨?_, ?_, ?_⟩
  · obtain ⟨request, hrequest, hrun⟩ :=
      KeyExchange.run_start (e := .starting []) (show (KeyExchange.new []).state = .init from rfl)
    have hasks : KeyExchange.Asks request := .start hrun
    obtain ⟨hwhole, hframes⟩ := hasked request hasks
    have hlength : request.length < 2 ^ 32 := by
      rw [(ReqPq.codes _).boxedBytes] at hrequest
      cases hrequest
      simp
    obtain ⟨msgId, raw, ⟨f', e'⟩, hformat⟩ := hexist now .keyExchange request {} (.starting [])
      (by decide) (.inl rfl) hlength
    exact ⟨request, hasks, hwhole, msgId, raw, f', e', hformat, hframes _ _ _ _ _ _ _ hformat⟩
  · obtain ⟨msgId, raw, ⟨f', e'⟩, hformat⟩ := hexist now .service [1, 2, 3, 4, 5]
      (({} : Framer).setAuth auth) (.starting []) (by decide) (.inr (Option.some_ne_none auth))
      (by decide)
    exact ⟨msgId, raw, f', e', hformat, hpayload _ _ _ _ _ _ _ _ _ (by decide) hformat⟩
  · have hsome : (Setting.bare.after []).session.written.head?.isSome = true := by rfl
    obtain ⟨raw, hraw⟩ := Option.isSome_iff_exists.mp hsome
    have hmem := List.mem_of_head? hraw
    exact ⟨raw, hmem, hhistory Setting.bare [] raw hmem⟩

end Mtproto
