import Mathlib.Tactic.Common
import Mtproto.Message.Envelope
import Mtproto.Proofs.Act
import Mtproto.Proofs.Ige
import Mtproto.Proofs.Wire

/-!
# What an encrypted envelope is

`Envelope.encrypt` seals a message under an authorization key, and `Envelope.decrypt` opens what has
been sealed.  `Sealed key d env padding raw` is the layout that both are compared with: the key
identifier, the message key of the text without its padding, and the text with its padding,
encrypted under keys that are derived from the message key.

* `sealed_iff_encrypt`: sealing gives the layout with the padding that is drawn.
* `decrypt_eq_ok_iff_sealed`: opening succeeds on the layout and on nothing else.
* `decryptWithin_eq`: opening never takes a part from outside of the string it is given.
* `decrypt_undoes_encrypt`: all of this together, for every key, direction, payload and tape.

The second one is where the padding matters.  The message key does not cover it, and the length
inside an envelope is whatever the sender has put there.  But the padding has to be shorter than a
block, and everything has to be whole blocks; that leaves one length for it (`eq_paddingFor`), the
one that sealing draws.
-/

namespace Mtproto

open Wire

namespace Envelope

/-! ## 1. Texts -/

/-- The fields in front of the payload. -/
def header (env : Envelope) : Bytes :=
  Bytes.le 8 env.salt.toNat ++ (Bytes.le 8 env.sessionId.toNat ++ (Bytes.le 8 env.msgId.toNat ++
    (Bytes.le 4 env.seqNo.toNat ++ Bytes.le 4 env.payload.length)))

/-- The text without its padding. -/
def text (env : Envelope) : Bytes :=
  env.header ++ env.payload

theorem length_header (env : Envelope) : env.header.length = innerHeader := by
  simp [header, innerHeader]

theorem length_text (env : Envelope) : env.text.length = innerHeader + env.payload.length := by
  rw [text, List.length_append, length_header]

theorem lengthWord_eq {payload : Bytes} (h : payload.length < 2 ^ 32) :
    lengthWord payload = .ok (UInt32.ofNat payload.length) :=
  if_pos h

theorem plainText_of_lt {env : Envelope} (h : env.payload.length < 2 ^ 32) :
    env.plainText = .ok env.text := by
  have hword : (UInt32.ofNat env.payload.length).toNat = env.payload.length :=
    UInt32.toNat_ofNat_of_lt' h
  rw [plainText, lengthWord_eq h]
  have hw := (((((Writes.word64 env.salt).append (.word64 env.sessionId)).append
    (.word64 env.msgId)).append (.word32 env.seqNo)).append
    (.word32 (UInt32.ofNat env.payload.length))).append (.raw env.payload)
  rw [hword] at hw
  refine hw.finish.trans (congrArg _ ?_)
  simp [text, header]

theorem plainText_of_le {env : Envelope} (h : 2 ^ 32 ≤ env.payload.length) :
    env.plainText = .error (.overflow env.payload.length 32) := by
  have hword : ¬ env.payload.length < UInt32.size := Nat.not_lt.mpr h
  rw [plainText, lengthWord, if_neg hword]
  rfl

/-- The fields are read back from the bytes in front of a payload. -/
theorem reads_fields {a b c d l : Bytes} (ha : a.length = 8) (hb : b.length = 8)
    (hc : c.length = 8) (hd : d.length = 4) (hl : l.length = 4) :
    Reads readFields (a ++ (b ++ (c ++ (d ++ l))))
      (UInt64.ofNat (Bytes.ofLE a), UInt64.ofNat (Bytes.ofLE b), UInt64.ofNat (Bytes.ofLE c),
        UInt32.ofNat (Bytes.ofLE d), (UInt32.ofNat (Bytes.ofLE l)).toNat) := by
  refine (Reads.word64 ha).bind ((Reads.word64 hb).bind ((Reads.word64 hc).bind
    ((Reads.word32 hd).bind ?_)))
  exact (Reads.word32 hl).map

/-- The header of an envelope is read back. -/
theorem reads_header {env : Envelope} (h : env.payload.length < 2 ^ 32) :
    Reads readFields env.header
      (env.salt, env.sessionId, env.msgId, env.seqNo, env.payload.length) := by
  have hread := reads_fields (a := Bytes.le 8 env.salt.toNat) (b := Bytes.le 8 env.sessionId.toNat)
    (c := Bytes.le 8 env.msgId.toNat) (d := Bytes.le 4 env.seqNo.toNat)
    (l := Bytes.le 4 env.payload.length) (by simp) (by simp) (by simp) (by simp) (by simp)
  rw [Bytes.toNat_ofLE_four (Bytes.length_le _ _), Bytes.ofLE_le_of_lt (k := 4) h,
    Bytes.ofLE_le_of_lt env.salt.toNat_lt, Bytes.ofLE_le_of_lt env.sessionId.toNat_lt,
    Bytes.ofLE_le_of_lt env.msgId.toNat_lt, Bytes.ofLE_le_of_lt env.seqNo.toNat_lt] at hread
  simpa [header] using hread

/-- The parts of a text that is long enough to have a header. -/
theorem exists_fields {plain : Bytes} (h : innerHeader ≤ plain.length) :
    ∃ a b c d l rest : Bytes, a.length = 8 ∧ b.length = 8 ∧ c.length = 8 ∧ d.length = 4 ∧
      l.length = 4 ∧ plain = a ++ (b ++ (c ++ (d ++ l))) ++ rest := by
  unfold innerHeader at h
  refine ⟨plain.take 8, (plain.drop 8).take 8, (plain.drop 16).take 8, (plain.drop 24).take 4,
    (plain.drop 28).take 4, plain.drop 32, ?_, ?_, ?_, ?_, ?_, ?_⟩
  all_goals try (simp only [List.length_take, List.length_drop]; omega)
  conv_lhs => rw [← List.take_append_drop 32 plain, show 32 = 8 + (8 + (8 + (4 + 4))) by rfl]
  simp only [List.take_add, List.drop_drop]

theorem fst_raw (seen : Bytes) {rest : Bytes} {length : Nat} (h : length ≤ rest.length) :
    (Read.raw length ⟨seen, rest, none⟩).1 = rest.take length := by
  have hread := Reads.raw (List.length_take_of_le h) seen (rest.drop length)
  rw [List.take_append_drop] at hread
  rw [hread]

theorem ofText_append {hs rest : Bytes} {msgKey : Octets 16} {salt sessionId msgId : UInt64}
    {seqNo : UInt32} {length : Nat} (hlen : hs.length = innerHeader)
    (h : Reads readFields hs (salt, sessionId, msgId, seqNo, length)) :
    ofText (hs ++ rest) msgKey =
      if rest.length < length ∨ block ≤ rest.length - length then .error .badMsgKey
      else if messageKey (hs ++ rest.take length) ≠ msgKey then .error .badMsgKey
      else .ok ⟨salt, sessionId, msgId, seqNo, rest.take length⟩ := by
  have hread : readFields (.ofBytes (hs ++ rest)) =
      ((salt, sessionId, msgId, seqNo, length), ⟨hs.reverse ++ [], rest, none⟩) := h [] rest
  have htake : (hs ++ rest).take (innerHeader + length) = hs ++ rest.take length := by
    rw [← hlen, List.take_length_add_append]
  rw [ofText, hread]
  simp only [htake]
  change (if rest.length < length ∨ block ≤ rest.length - length then _ else _) = _
  split
  · rfl
  · rename_i hbounds
    have hle : length ≤ rest.length := by omega
    simp only [fst_raw _ hle]
    split <;> rfl

/-- The text of an envelope with less than a block behind it is accepted for that envelope. -/
theorem ofText_text_append {env : Envelope} {padding : Bytes} (h : env.payload.length < 2 ^ 32)
    (hp : padding.length < block) :
    ofText (env.text ++ padding) (messageKey env.text) = .ok env := by
  rw [text, List.append_assoc, ofText_append env.length_header (reads_header h)]
  have hbounds : ¬ ((env.payload ++ padding).length < env.payload.length ∨
      block ≤ (env.payload ++ padding).length - env.payload.length) := by
    rw [List.length_append]
    omega
  rw [if_neg hbounds, List.take_left, if_neg (not_not_intro rfl)]

/-- An accepted text is the text of the envelope, with less than a block behind it. -/
theorem eq_of_ofText {plain : Bytes} {msgKey : Octets 16} {env : Envelope}
    (hlen : innerHeader ≤ plain.length) (h : ofText plain msgKey = .ok env) :
    env.payload.length < 2 ^ 32 ∧ messageKey env.text = msgKey ∧
      ∃ padding, padding.length < block ∧ plain = env.text ++ padding := by
  obtain ⟨a, b, c, d, l, rest, ha, hb, hc, hd, hl, rfl⟩ := exists_fields hlen
  have hheader : (a ++ (b ++ (c ++ (d ++ l)))).length = innerHeader := by
    simp [ha, hb, hc, hd, hl, innerHeader]
  rw [ofText_append hheader (reads_fields ha hb hc hd hl), Bytes.toNat_ofLE_four hl] at h
  split at h
  · cases h
  · rename_i hbounds
    split at h
    · cases h
    · rename_i hkey
      have hpayload : (rest.take (Bytes.ofLE l)).length = Bytes.ofLE l := by
        refine List.length_take_of_le ?_
        omega
      have hword : Bytes.ofLE l < 2 ^ 32 := by
        have := Bytes.ofLE_lt l
        rwa [hl] at this
      cases h
      have htext : text ⟨UInt64.ofNat (Bytes.ofLE a), UInt64.ofNat (Bytes.ofLE b),
          UInt64.ofNat (Bytes.ofLE c), UInt32.ofNat (Bytes.ofLE d), rest.take (Bytes.ofLE l)⟩ =
          a ++ (b ++ (c ++ (d ++ l))) ++ rest.take (Bytes.ofLE l) := by
        rw [text, header]
        simp only [hpayload, Bytes.le_ofLE_eight ha, Bytes.le_ofLE_eight hb, Bytes.le_ofLE_eight hc, Bytes.le_ofLE_four hd]
        rw [← hl, Bytes.le_ofLE]
      refine ⟨hpayload.symm ▸ hword, ?_, rest.drop (Bytes.ofLE l), ?_, ?_⟩
      · rw [htext]
        exact not_not.mp hkey
      · rw [List.length_drop]
        omega
      · rw [htext]
        simp only [List.append_assoc, List.take_append_drop]

/-! ## 2. Sealing -/

/-- The layout of a sealed envelope. -/
structure Sealed (key : AuthKey) (d : Direction) (env : Envelope) (padding raw : Bytes) : Prop where
  payload_lt : env.payload.length < 2 ^ 32
  padding_lt : padding.length < block
  layout : ∃ enc,
    Ige.aes256Encrypt (messageCipherKey key (messageKey env.text) d).key.bytes
      (messageCipherKey key (messageKey env.text) d).iv.bytes (env.text ++ padding) = .ok enc ∧
    raw = Bytes.le 8 key.id.toNat ++ ((messageKey env.text).bytes ++ enc)

theorem sealText_eq_ok_iff {key : AuthKey} {d : Direction} {plain padding raw : Bytes} :
    sealText key d plain padding = .ok raw ↔ ∃ enc,
      Ige.aes256Encrypt (messageCipherKey key (messageKey plain) d).key.bytes
        (messageCipherKey key (messageKey plain) d).iv.bytes (plain ++ padding) = .ok enc ∧
      raw = Bytes.le 8 key.id.toNat ++ ((messageKey plain).bytes ++ enc) := by
  unfold sealText
  cases h : Ige.aes256Encrypt (messageCipherKey key (messageKey plain) d).key.bytes
    (messageCipherKey key (messageKey plain) d).iv.bytes (plain ++ padding) with
  | error e => simp [h, bind, Except.bind]
  | ok enc => simp [h, bind, Except.bind, pure, Except.pure, eq_comm]

/-- Sealing takes the padding from the tape, and nothing else. -/
theorem run_encrypt {key : AuthKey} {d : Direction} {env : Envelope}
    (h : env.payload.length < 2 ^ 32) (e : Entropy) :
    encrypt key d env e =
      (.ok (sealText key d env.text (e.peek (padding env.text))), e.skip (padding env.text)) := by
  unfold encrypt
  rw [plainText_of_lt h]
  rfl

theorem run_encrypt_of_le {key : AuthKey} {d : Direction} {env : Envelope}
    (h : 2 ^ 32 ≤ env.payload.length) (e : Entropy) :
    encrypt key d env e = (.ok (.error (.decode (.overflow env.payload.length 32))), e) := by
  unfold encrypt
  rw [plainText_of_le h]
  rfl

/-- With the padding that it needs, every text can be sealed. -/
theorem sealText_total (key : AuthKey) (d : Direction) {plain pad : Bytes}
    (h : pad.length = padding plain) : ∃ raw, sealText key d plain pad = .ok raw := by
  have hwhole : (plain ++ pad).length % 16 = 0 := by
    rw [List.length_append, h]
    exact add_paddingFor_mod _ (by decide)
  obtain ⟨enc, henc⟩ := Ige.aes256Encrypt_total
    (messageCipherKey key (messageKey plain) d).key (messageCipherKey key (messageKey plain) d).iv
    hwhole
  exact ⟨_, sealText_eq_ok_iff.mpr ⟨enc, henc, rfl⟩⟩

/-- The padding of a layout has the length that sealing draws. -/
theorem Sealed.length_padding {key : AuthKey} {d : Direction} {env : Envelope} {pad raw : Bytes}
    (h : Sealed key d env pad raw) : pad.length = padding env.text := by
  obtain ⟨-, hpad, enc, henc, -⟩ := h
  have hwhole := Ige.mod_of_aes256Encrypt henc
  rw [List.length_append] at hwhole
  exact eq_paddingFor hpad hwhole

theorem Sealed.length_raw {key : AuthKey} {d : Direction} {env : Envelope} {pad raw : Bytes}
    (h : Sealed key d env pad raw) :
    raw.length = outerHeader + innerHeader + env.payload.length + pad.length := by
  obtain ⟨-, -, enc, henc, rfl⟩ := h
  rw [List.length_append, List.length_append, Bytes.length_le, Octets.length_bytes,
    Ige.length_aes256Encrypt henc, List.length_append, length_text, outerHeader]
  omega

theorem Sealed.length_mod {key : AuthKey} {d : Direction} {env : Envelope} {pad raw : Bytes}
    (h : Sealed key d env pad raw) :
    (innerHeader + env.payload.length + pad.length) % block = 0 := by
  obtain ⟨-, -, enc, henc, -⟩ := h
  have hwhole := Ige.mod_of_aes256Encrypt henc
  rwa [List.length_append, length_text] at hwhole

/-- Every envelope that is not too long has a layout. -/
theorem exists_sealed (key : AuthKey) (d : Direction) (env : Envelope)
    (h : env.payload.length < 2 ^ 32) : ∃ pad raw, Sealed key d env pad raw := by
  obtain ⟨raw, hraw⟩ :=
    sealText_total key d (List.length_replicate (n := padding env.text) (a := 0))
  exact ⟨_, raw, h, by rw [List.length_replicate]; exact paddingFor_lt _ (by decide),
    sealText_eq_ok_iff.mp hraw⟩

/-- **Sealing on a tape that goes on with the padding gives the layout.** -/
theorem sealed_iff_encrypt {key : AuthKey} {d : Direction} {env : Envelope} {pad raw : Bytes}
    {e : Entropy} (hpad : e.peek pad.length = pad) :
    Sealed key d env pad raw ↔ encrypt key d env e = (.ok (.ok raw), e.skip pad.length) := by
  constructor
  · intro h
    have hlen := h.length_padding
    obtain ⟨hlt, -, hlayout⟩ := h
    rw [run_encrypt hlt, ← hlen, hpad, sealText_eq_ok_iff.mpr hlayout]
  · intro h
    rcases Nat.lt_or_ge env.payload.length (2 ^ 32) with hlt | hge
    · rw [run_encrypt hlt] at h
      obtain ⟨hseal, hskip⟩ := ok_pair_eq_iff.mp h
      have hlen : pad.length = padding env.text := by
        have := congrArg Entropy.drawn hskip
        simp only [Entropy.skip] at this
        omega
      rw [← hlen, hpad] at hseal
      exact ⟨hlt, hlen ▸ paddingFor_lt _ (by decide), sealText_eq_ok_iff.mp hseal⟩
    · rw [run_encrypt_of_le hge] at h
      obtain ⟨hseal, -⟩ := ok_pair_eq_iff.mp h
      cases hseal

/-! ## 3. Opening -/

theorem envelopeKeyId?_append {keyId : Bytes} (h : keyId.length = 8) (rest : Bytes) :
    envelopeKeyId? (keyId ++ rest) = some (UInt64.ofNat (Bytes.ofLE keyId)) := by
  obtain ⟨a, b, c, d, e, f, g, k, rfl⟩ : ∃ a b c d e f g k, keyId = [a, b, c, d, e, f, g, k] := by
    match keyId, h with
    | [a, b, c, d, e, f, g, k], _ => exact ⟨a, b, c, d, e, f, g, k, rfl⟩
  rfl

theorem envelopeKeyId?_of_lt {raw : Bytes} (h : raw.length < 8) : envelopeKeyId? raw = none := by
  rw [envelopeKeyId?.eq_def]
  split
  · simp only [List.length_cons] at h
    omega
  · rfl

/-- A layout starts with the identifier of the key. -/
theorem Sealed.keyId? {key : AuthKey} {d : Direction} {env : Envelope} {pad raw : Bytes}
    (h : Sealed key d env pad raw) : envelopeKeyId? raw = some key.id := by
  obtain ⟨-, -, enc, -, rfl⟩ := h
  rw [envelopeKeyId?_append (Bytes.length_le _ _), Bytes.ofLE_le_of_lt (k := 8) key.id.toNat_lt,
    UInt64.ofNat_toNat]

/-- Opening, on the three parts of whole blocks. -/
theorem decrypt_append {key : AuthKey} {d : Direction} {keyId body : Bytes} {msgKey : Octets 16}
    (hk : keyId.length = 8) (hbody : innerHeader ≤ body.length) (hwhole : body.length % block = 0) :
    decrypt key d (keyId ++ (msgKey.bytes ++ body)) =
      if UInt64.ofNat (Bytes.ofLE keyId) ≠ key.id then
        .error (.unknownAuthKeyId (UInt64.ofNat (Bytes.ofLE keyId)))
      else (Ige.aes256Decrypt (messageCipherKey key msgKey d).key.bytes
        (messageCipherKey key msgKey d).iv.bytes body).bind fun plain => ofText plain msgKey := by
  have hlength : (keyId ++ (msgKey.bytes ++ body)).length = outerHeader + body.length := by
    simp only [List.length_append, hk, Octets.length_bytes, outerHeader]
    omega
  have hguard : ¬ ((keyId ++ (msgKey.bytes ++ body)).length < outerHeader + innerHeader ∨
      ((keyId ++ (msgKey.bytes ++ body)).length - outerHeader) % block ≠ 0) := by
    rw [hlength, Nat.add_sub_cancel_left, hwhole]
    omega
  have hkey : ((keyId ++ (msgKey.bytes ++ body)).drop 8).take 16 = msgKey.bytes := by
    rw [← hk, List.drop_left]
    exact List.take_left' msgKey.length_bytes
  have hdrop : (keyId ++ (msgKey.bytes ++ body)).drop outerHeader = body := by
    have hfront : outerHeader = (keyId ++ msgKey.bytes).length := by simp [hk, outerHeader]
    rw [← List.append_assoc, hfront, List.drop_left]
  rw [decrypt]
  simp only [if_neg hguard, envelopeKeyId?_append hk, hkey, Octets.ofBytes?_bytes, hdrop]
  rfl

/-- Whatever passes the check of lengths has the three parts. -/
theorem exists_parts {raw : Bytes} (h : ¬ (raw.length < outerHeader + innerHeader ∨
    (raw.length - outerHeader) % block ≠ 0)) :
    ∃ (keyId : Bytes) (msgKey : Octets 16) (body : Bytes), keyId.length = 8 ∧
      innerHeader ≤ body.length ∧ body.length % block = 0 ∧
      raw = keyId ++ (msgKey.bytes ++ body) := by
  unfold outerHeader innerHeader block at h
  have hkey : ((raw.drop 8).take 16).length = 16 := by
    rw [List.length_take, List.length_drop]
    omega
  refine ⟨raw.take 8, ⟨(raw.drop 8).take 16, hkey⟩, raw.drop 24, ?_, ?_, ?_, ?_⟩
  · rw [List.length_take]
    omega
  · rw [List.length_drop, innerHeader]
    omega
  · rw [List.length_drop, block]
    omega
  · have hbody : raw.drop 24 = (raw.drop 8).drop 16 := by rw [List.drop_drop]
    rw [hbody, List.take_append_drop, List.take_append_drop]

/-- A layout is opened as its envelope. -/
theorem decrypt_of_sealed {key : AuthKey} {d : Direction} {env : Envelope} {pad raw : Bytes}
    (h : Sealed key d env pad raw) : decrypt key d raw = .ok env := by
  obtain ⟨hlt, hpad, enc, henc, rfl⟩ := h
  have hlen := Ige.length_aes256Encrypt henc
  have hwhole : enc.length % block = 0 := by
    rw [hlen]
    exact Ige.mod_of_aes256Encrypt henc
  have hbody : innerHeader ≤ enc.length := by
    rw [hlen, List.length_append, length_text]
    omega
  have hid : UInt64.ofNat (Bytes.ofLE (Bytes.le 8 key.id.toNat)) = key.id := by
    rw [Bytes.ofLE_le_of_lt (k := 8) key.id.toNat_lt, UInt64.ofNat_toNat]
  have hsame : ¬ key.id ≠ key.id := not_not_intro rfl
  rw [decrypt_append (Bytes.length_le _ _) hbody hwhole, hid, if_neg hsame,
    Ige.aes256Decrypt_eq_ok_iff.mpr henc, Except.bind]
  exact ofText_text_append hlt hpad

/-- What can be opened is a layout of the envelope that comes out. -/
theorem sealed_of_decrypt {key : AuthKey} {d : Direction} {env : Envelope} {raw : Bytes}
    (h : decrypt key d raw = .ok env) : ∃ pad, Sealed key d env pad raw := by
  by_cases hguard : raw.length < outerHeader + innerHeader ∨
      (raw.length - outerHeader) % block ≠ 0
  · rw [decrypt] at h
    simp only [if_pos hguard] at h
    cases h
  · obtain ⟨keyId, msgKey, body, hk, hbody, hwhole, rfl⟩ := exists_parts hguard
    rw [decrypt_append hk hbody hwhole] at h
    split at h
    · cases h
    · rename_i hid
      cases hplain : Ige.aes256Decrypt (messageCipherKey key msgKey d).key.bytes
          (messageCipherKey key msgKey d).iv.bytes body with
      | error e =>
        rw [hplain] at h
        cases h
      | ok plain =>
        rw [hplain] at h
        have henc := Ige.aes256Decrypt_eq_ok_iff.mp hplain
        rw [Ige.length_aes256Encrypt henc] at hbody
        obtain ⟨hlt, rfl, pad, hpad, rfl⟩ := eq_of_ofText hbody h
        refine ⟨pad, hlt, hpad, body, henc, ?_⟩
        rw [← not_not.mp hid, Bytes.le_ofLE_eight hk]

/-- **Opening succeeds on layouts and on nothing else.** -/
theorem decrypt_eq_ok_iff_sealed {key : AuthKey} {d : Direction} {env : Envelope} {raw : Bytes} :
    decrypt key d raw = .ok env ↔ ∃ pad, Sealed key d env pad raw :=
  ⟨sealed_of_decrypt, fun ⟨_, h⟩ => decrypt_of_sealed h⟩

/-! ## 4. Bounds -/

/-- The part of a string between two places, if both are inside the string. -/
def part? (bs : Bytes) (start stop : Nat) : Option Bytes :=
  if start ≤ stop ∧ stop ≤ bs.length then some ((bs.drop start).take (stop - start)) else none

/-- `ofText`, without a result where a part is not inside the text. -/
def ofTextWithin (plain : Bytes) (msgKey : Octets 16) : Option (Except Error Envelope) :=
  let ((salt, sessionId, msgId, seqNo, length), r) := readFields (.ofBytes plain)
  match r.check with
  | .error e => some (.error (.decode e))
  | .ok () =>
    if r.remaining < length ∨ block ≤ r.remaining - length then some (.error .badMsgKey)
    else
      (part? plain 0 (innerHeader + length)).map fun front =>
        if messageKey front ≠ msgKey then .error .badMsgKey
        else .ok ⟨salt, sessionId, msgId, seqNo, (Read.raw length r).1⟩

/-- `decrypt`, without a result where a part is not inside the string it is taken from. -/
def decryptWithin (key : AuthKey) (d : Direction) (sealed : Bytes) :
    Option (Except Error Envelope) :=
  let length := sealed.length
  if length < outerHeader + innerHeader ∨ (length - outerHeader) % block ≠ 0 then
    some (.error (.crypto (.malformedEnvelope length)))
  else
    (part? sealed 0 8).bind fun keyId =>
      if UInt64.ofNat (Bytes.ofLE keyId) ≠ key.id then
        some (.error (.unknownAuthKeyId (UInt64.ofNat (Bytes.ofLE keyId))))
      else
        ((part? sealed 8 outerHeader).bind (Octets.ofBytes? 16)).bind fun msgKey =>
          (part? sealed outerHeader length).bind fun body =>
            match Ige.aes256Decrypt (messageCipherKey key msgKey d).key.bytes
              (messageCipherKey key msgKey d).iv.bytes body with
            | .error e => some (.error e)
            | .ok plain => ofTextWithin plain msgKey

theorem part?_append (front mid back : Bytes) {start stop : Nat} (hstart : front.length = start)
    (hstop : start + mid.length = stop) : part? (front ++ (mid ++ back)) start stop = some mid := by
  subst hstart hstop
  have hbounds : front.length ≤ front.length + mid.length ∧
      front.length + mid.length ≤ (front ++ (mid ++ back)).length := by
    simp only [List.length_append]
    omega
  rw [part?, if_pos hbounds, List.drop_left, Nat.add_sub_cancel_left, List.take_left]

theorem ofTextWithin_eq {plain : Bytes} (msgKey : Octets 16) (h : innerHeader ≤ plain.length) :
    ofTextWithin plain msgKey = some (ofText plain msgKey) := by
  obtain ⟨a, b, c, d, l, rest, ha, hb, hc, hd, hl, rfl⟩ := exists_fields h
  have hheader : (a ++ (b ++ (c ++ (d ++ l)))).length = innerHeader := by
    simp [ha, hb, hc, hd, hl, innerHeader]
  generalize hhs : a ++ (b ++ (c ++ (d ++ l))) = hs at hheader
  have hfields := reads_fields ha hb hc hd hl
  rw [hhs] at hfields
  generalize (UInt32.ofNat (Bytes.ofLE l)).toNat = length at hfields
  have hread : readFields (.ofBytes (hs ++ rest)) = _ := hfields [] rest
  rw [ofText_append hheader hfields, ofTextWithin, hread]
  change (if rest.length < length ∨ block ≤ rest.length - length then _ else _) = _
  by_cases hbounds : rest.length < length ∨ block ≤ rest.length - length
  · rw [if_pos hbounds, if_pos hbounds]
  · have hle : length ≤ rest.length := by omega
    have hpart : part? (hs ++ rest) 0 (innerHeader + length) = some (hs ++ rest.take length) := by
      have hfront : (hs ++ rest.take length).length = innerHeader + length := by
        rw [List.length_append, hheader, List.length_take_of_le hle]
      have := part?_append [] (hs ++ rest.take length) (rest.drop length) rfl
        ((Nat.zero_add _).trans hfront)
      rwa [List.nil_append, List.append_assoc, List.take_append_drop] at this
    rw [if_neg hbounds, if_neg hbounds, hpart]
    simp only [Option.map_some, fst_raw _ hle]

/-- **No part is taken from outside a string**, whatever is opened. -/
theorem decryptWithin_eq (key : AuthKey) (d : Direction) (raw : Bytes) :
    decryptWithin key d raw = some (decrypt key d raw) := by
  by_cases hguard : raw.length < outerHeader + innerHeader ∨
      (raw.length - outerHeader) % block ≠ 0
  · simp only [decryptWithin, decrypt, if_pos hguard]
    rfl
  · have hparts := exists_parts hguard
    obtain ⟨keyId, msgKey, body, hk, hbody, hwhole, rfl⟩ := hparts
    have hkeyId : part? (keyId ++ (msgKey.bytes ++ body)) 0 8 = some keyId :=
      part?_append [] keyId _ rfl ((Nat.zero_add _).trans hk)
    have hmsgKey : part? (keyId ++ (msgKey.bytes ++ body)) 8 outerHeader = some msgKey.bytes :=
      part?_append keyId msgKey.bytes body hk (by simp [outerHeader])
    have hrest : part? (keyId ++ (msgKey.bytes ++ body)) outerHeader
        (keyId ++ (msgKey.bytes ++ body)).length = some body := by
      have hfront : (keyId ++ msgKey.bytes).length = outerHeader := by simp [hk, outerHeader]
      have hwhole : outerHeader + body.length = (keyId ++ (msgKey.bytes ++ body)).length := by
        rw [← hfront]
        simp only [List.length_append]
        omega
      have := part?_append (keyId ++ msgKey.bytes) body [] hfront hwhole
      rwa [List.append_nil, List.append_assoc] at this
    rw [decrypt_append hk hbody hwhole, decryptWithin]
    simp only [if_neg hguard, hkeyId, hmsgKey, hrest, Option.bind_some, Octets.ofBytes?_bytes]
    by_cases hid : UInt64.ofNat (Bytes.ofLE keyId) ≠ key.id
    · rw [if_pos hid, if_pos hid]
    · rw [if_neg hid, if_neg hid]
      cases hplain : Ige.aes256Decrypt (messageCipherKey key msgKey d).key.bytes
          (messageCipherKey key msgKey d).iv.bytes body with
      | error e => rfl
      | ok plain =>
        have henc := Ige.aes256Decrypt_eq_ok_iff.mp hplain
        rw [Ige.length_aes256Encrypt henc] at hbody
        simp only [Except.bind]
        exact ofTextWithin_eq msgKey hbody

/-! ## 5. Both together -/

/-- **Opening undoes sealing, and accepts nothing else.**

* A string is opened as an envelope exactly if some padding makes a tape that goes on with it
  seal the envelope into the string.
* On every tape an envelope whose length fits its word is sealed, and comes back.
* What is opened is the key identifier, the message key of header and payload, and header,
  payload and less than a block of padding, encrypted.
* Every other string is refused with an error, and no part is ever taken from outside a string. -/
theorem decrypt_undoes_encrypt (key : AuthKey) (d : Direction) :
    (∀ raw env, decrypt key d raw = .ok env ↔
      env.payload.length < 2 ^ 32 ∧ ∃ pad : Bytes, ∀ e : Entropy, e.peek pad.length = pad →
        encrypt key d env e = (.ok (.ok raw), e.skip pad.length)) ∧
    (∀ env e, env.payload.length < 2 ^ 32 → ∃ raw,
      encrypt key d env e = (.ok (.ok raw), e.skip (padding env.text)) ∧
        decrypt key d raw = .ok env) ∧
    (∀ raw env, decrypt key d raw = .ok env → ∃ pad enc : Bytes, pad.length < 16 ∧
      Ige.aes256Encrypt (messageCipherKey key (messageKey (env.header ++ env.payload)) d).key.bytes
        (messageCipherKey key (messageKey (env.header ++ env.payload)) d).iv.bytes
        (env.header ++ env.payload ++ pad) = .ok enc ∧
      raw = Bytes.le 8 key.id.toNat ++
        ((messageKey (env.header ++ env.payload)).bytes ++ enc)) ∧
    (∀ raw, (¬ ∃ env pad, Sealed key d env pad raw) → ∃ error, decrypt key d raw = .error error) ∧
    ∀ raw, decryptWithin key d raw = some (decrypt key d raw) := by
  refine ⟨?_, ?_, ?_, ?_, decryptWithin_eq key d⟩
  · intro raw env
    constructor
    · intro h
      obtain ⟨pad, hsealed⟩ := sealed_of_decrypt h
      exact ⟨hsealed.payload_lt, pad, fun e he => (sealed_iff_encrypt he).mp hsealed⟩
    · rintro ⟨-, pad, h⟩
      have htape := Entropy.peek_starting pad
      exact decrypt_of_sealed ((sealed_iff_encrypt htape).mpr (h _ htape))
  · intro env e hlt
    obtain ⟨raw, hraw⟩ := sealText_total key d ((e.length_peek (padding env.text)))
    have hpad : (e.peek (padding env.text)).length < block := by
      rw [Entropy.length_peek]
      exact paddingFor_lt _ (by decide)
    refine ⟨raw, ?_, decrypt_of_sealed ⟨hlt, hpad, sealText_eq_ok_iff.mp hraw⟩⟩
    rw [run_encrypt hlt, hraw]
  · intro raw env h
    obtain ⟨pad, -, hpad, enc, henc, hraw⟩ := sealed_of_decrypt h
    exact ⟨pad, enc, hpad, henc, hraw⟩
  · intro raw h
    cases hopen : decrypt key d raw with
    | error error => exact ⟨error, rfl⟩
    | ok env => exact absurd ⟨env, sealed_of_decrypt hopen⟩ h

end Envelope

end Mtproto
