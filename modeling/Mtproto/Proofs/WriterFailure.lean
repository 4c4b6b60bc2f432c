import Mathlib.Order.Bounds.Defs
import Mathlib.Tactic.Common
import Mtproto.Proofs.Buffers
import Mtproto.Proofs.Widths
import Mtproto.Schema.Handshake
import Mtproto.Schema.Service

/-!
# A writer keeps its first failure

A `Writer` is the bytes written so far and the first failure, if there was one.  All that is done
with it is put together from primitives, `Put`: each appends one value, appends padding, or records
a failure.  `Performs f ps` says that `f` is the primitives `ps`, one after the other; vectors are
their tag, their count and their items, and boxed values are their tag and their fields, to any
depth.

* What a primitive does has three cases (`Put.run_of_accepted`, `Put.run_of_refused`,
  `Put.run_of_overflow`), and after a failure it does nothing (`Put.run_failed`).
* By induction so has a list of them: all encodings one after the other, or those in front of the
  first primitive that is refused, or a buffer that cannot be that long (`perform_of_accepted`,
  `perform_of_refused`, `perform_of_overflow`).
* `Performs.eq_perform`: a procedure is run by running its primitives.
* `first_refusal_kept`: so a caller may write a whole record and look at the outcome once, at the
  end.
-/

namespace Mtproto.Wire

variable {α : Type}

/-! ## 1. Primitives -/

/-- What is done with a writer in one step. -/
inductive Put where
  | uint (value bits : Nat)
  | word32 (v : UInt32)
  | int32 (v : Int32)
  | word64 (v : UInt64)
  | int64 (v : Int64)
  | bool (v : Bool)
  | octets {n : Nat} (v : Octets n)
  | raw (bs : Bytes)
  | blob (data : Bytes)
  | text (s : String)
  | natural (n : Nat)
  | padTo (align : Nat)
  | fail (e : DecodeError)

namespace Put

/-- Do it. -/
def run : Put → Writer → Except Fault Writer
  | uint value bits => fun w => .ok (w.uint value bits)
  | word32 v => fun w => .ok (w.word32 v)
  | int32 v => fun w => .ok (w.int32 v)
  | word64 v => fun w => .ok (w.word64 v)
  | int64 v => fun w => .ok (w.int64 v)
  | bool v => fun w => .ok (w.bool v)
  | octets v => fun w => .ok (w.octets v)
  | raw bs => fun w => .ok (w.raw bs)
  | blob data => fun w => .ok (w.blob data)
  | text s => fun w => .ok (w.text s)
  | natural n => fun w => .ok (w.natural n)
  | padTo align => fun w => w.checkedPadTo align
  | fail e => fun w => .ok (w.fail e)

/-- What is refused, and why. -/
inductive Refused : Put → DecodeError → Prop
  | width {value bits : Nat} (h : bits ∉ [24, 32, 64, 128]) :
      Refused (uint value bits) (.invalidValue (.width bits))
  | range {value bits : Nat} (hbits : bits ∈ [24, 32, 64, 128]) (h : 2 ^ bits ≤ value) :
      Refused (uint value bits) (.overflow value bits)
  | blob {data : Bytes} (h : 2 ^ 24 - 1 < data.length) :
      Refused (blob data) (.overflow data.length 24)
  | text {s : String} (h : 2 ^ 24 - 1 < (Text.Utf8.encode s).length) :
      Refused (text s) (.overflow (Text.Utf8.encode s).length 24)
  | natural {n : Nat} (h : 2 ^ 24 - 1 < (Bytes.magnitude n).length) :
      Refused (natural n) (.overflow (Bytes.magnitude n).length 24)
  | fail (e : DecodeError) : Refused (fail e) e

/-- Nothing speaks against it. -/
def Accepted (p : Put) : Prop :=
  ∀ e, ¬ Refused p e

/-- What it appends behind `len` bytes, if it is accepted. -/
def encoding (len : Nat) : Put → Bytes
  | uint value bits => Bytes.le (bits / 8) value
  | word32 v => Bytes.le 4 v.toNat
  | int32 v => Bytes.le 4 v.toUInt32.toNat
  | word64 v => Bytes.le 8 v.toNat
  | int64 v => Bytes.le 8 v.toUInt64.toNat
  | bool v => Bytes.le 4 (if v then trueTag else falseTag).toNat
  | octets v => v.bytes
  | raw bs => bs
  | blob data => blobBytes data
  | text s => blobBytes (Text.Utf8.encode s)
  | natural n => blobBytes (Bytes.magnitude n)
  | padTo align => List.replicate (if align = 0 then 0 else paddingFor len align) 0
  | fail _ => []

/-- Padding behind `len` bytes stays within what a buffer can hold. -/
def Fits (len : Nat) (p : Put) : Prop :=
  ∀ align, p = padTo align → align ≠ 0 → len + paddingFor len align ≤ Bytes.maxBufferLength

/-- After a failure nothing is done. -/
theorem run_failed (p : Put) (out : Bytes) (e : DecodeError) :
    p.run ⟨out, some e⟩ = .ok ⟨out, some e⟩ := by
  have hencoded : ∀ r, Writer.encoded ⟨out, some e⟩ r = ⟨out, some e⟩ := by
    rintro (refusal | bs)
    · rfl
    · rfl
  cases p with
  | uint value bits => exact congrArg Except.ok (hencoded _)
  | blob data => exact congrArg Except.ok (hencoded _)
  | text s => exact congrArg Except.ok (hencoded _)
  | natural n => exact congrArg Except.ok (hencoded _)
  | padTo align => exact if_pos (Or.inr (Option.some_ne_none e))
  | word32 | int32 | word64 | int64 | bool | octets | raw | fail => rfl

/-- **What is refused adds no byte.** -/
theorem run_of_refused {p : Put} {e : DecodeError} (h : Refused p e) (out : Bytes) :
    p.run ⟨out, none⟩ = .ok ⟨out, some e⟩ := by
  have hencoded : ∀ {r : Except DecodeError Bytes}, r = .error e →
      Writer.encoded ⟨out, none⟩ r = ⟨out, some e⟩ := by
    rintro _ rfl
    rfl
  cases h with
  | width h => exact congrArg Except.ok (hencoded (if_pos h))
  | @range value bits hbits h =>
    exact congrArg Except.ok (hencoded (encodeUint_of_le hbits h))
  | blob h => exact congrArg Except.ok (hencoded (if_pos h))
  | text h => exact congrArg Except.ok (hencoded (if_pos h))
  | natural h => exact congrArg Except.ok (hencoded (if_pos h))
  | fail e => rfl

/-- **What is accepted appends its encoding.** -/
theorem run_of_accepted {p : Put} (h : p.Accepted) {out : Bytes} (hfits : p.Fits out.length) :
    p.run ⟨out, none⟩ = .ok ⟨out ++ p.encoding out.length, none⟩ := by
  have hblob : ∀ data : Bytes, ¬ 2 ^ 24 - 1 < data.length →
      Writer.blob ⟨out, none⟩ data = ⟨out ++ blobBytes data, none⟩ :=
    fun data hle => Writes.blob (Nat.not_lt.mp hle) out
  cases p with
  | uint value bits =>
    have hbits : bits ∈ widths := Decidable.not_not.mp fun hbits => h _ (.width hbits)
    have hrange : value < 2 ^ bits := Nat.not_le.mp fun hrange => h _ (.range hbits hrange)
    change Except.ok (Writer.encoded ⟨out, none⟩ (encodeUint value bits)) = _
    rw [encodeUint_of_lt hbits hrange]
    rfl
  | blob data => exact congrArg Except.ok (hblob data fun hlong => h _ (.blob hlong))
  | text s => exact congrArg Except.ok (hblob _ fun hlong => h _ (.text hlong))
  | natural n => exact congrArg Except.ok (hblob _ fun hlong => h _ (.natural hlong))
  | padTo align =>
    change Writer.checkedPadTo ⟨out, none⟩ align = _
    unfold Writer.checkedPadTo Writer.padTo
    by_cases halign : align = 0
    · simp [halign, encoding]
    · have hle := hfits align rfl halign
      simp [halign, encoding, Nat.not_lt.mpr hle, Writer.raw]
  | fail e => exact absurd (.fail e) (h e)
  | word32 | int32 | word64 | int64 | bool | octets | raw => rfl

/-- Padding that no buffer can hold. -/
theorem run_of_overflow {p : Put} {out : Bytes} (h : ¬ p.Fits out.length) :
    p.run ⟨out, none⟩ = .error .oversized := by
  unfold Fits at h
  push Not at h
  obtain ⟨align, rfl, halign, hlong⟩ := h
  change Writer.checkedPadTo ⟨out, none⟩ align = _
  simp [Writer.checkedPadTo, halign, hlong]

end Put

/-! ## 2. Lists of primitives -/

/-- Do one after the other. -/
def perform (ps : List Put) (w : Writer) : Except Fault Writer :=
  ps.foldlM (fun w p => p.run w) w

/-- The encodings, one after the other, behind `len` bytes. -/
def encodings : (len : Nat) → List Put → Bytes
  | _, [] => []
  | len, p :: ps => p.encoding len ++ encodings (len + (p.encoding len).length) ps

/-- All are accepted. -/
def Accepted (ps : List Put) : Prop :=
  ∀ p ∈ ps, p.Accepted

/-- Until something is refused, all padding stays within what a buffer can hold. -/
def Fits (len : Nat) (ps : List Put) : Prop :=
  ∀ before p after, ps = before ++ p :: after → Accepted before →
    p.Fits (len + (encodings len before).length)

theorem perform_cons (p : Put) (ps : List Put) (w : Writer) :
    perform (p :: ps) w = p.run w >>= perform ps :=
  List.foldlM_cons

theorem perform_append (ps qs : List Put) (w : Writer) :
    perform (ps ++ qs) w = perform ps w >>= perform qs :=
  List.foldlM_append

/-- After a failure nothing is done. -/
theorem perform_failed (ps : List Put) (out : Bytes) (e : DecodeError) :
    perform ps ⟨out, some e⟩ = .ok ⟨out, some e⟩ := by
  induction ps with
  | nil => rfl
  | cons p ps ih =>
    rw [perform_cons, p.run_failed]
    exact ih

theorem fits_cons_iff {len : Nat} {p : Put} {ps : List Put} :
    Fits len (p :: ps) ↔
      p.Fits len ∧ (p.Accepted → Fits (len + (p.encoding len).length) ps) := by
  constructor
  · intro h
    refine ⟨h [] p ps rfl fun _ hq => absurd hq List.not_mem_nil, fun hp => ?_⟩
    rintro before q after rfl hbefore
    have hq := h (p :: before) q after rfl (List.forall_mem_cons.mpr ⟨hp, hbefore⟩)
    rwa [encodings, List.length_append, ← Nat.add_assoc] at hq
  · rintro ⟨hp, hps⟩ (_ | ⟨r, before⟩) q after heq hbefore
    · cases heq
      exact hp
    · cases heq
      obtain ⟨hr, hbefore⟩ := List.forall_mem_cons.mp hbefore
      rw [encodings, List.length_append, ← Nat.add_assoc]
      exact hps hr before q after rfl hbefore

theorem Fits.append_left {len : Nat} {ps qs : List Put} (h : Fits len (ps ++ qs)) :
    Fits len ps := by
  rintro before p after rfl hbefore
  exact h before p (after ++ qs) (by simp) hbefore

/-- **If nothing is refused, the encodings are appended.** -/
theorem perform_of_accepted {ps : List Put} {out : Bytes} (h : Accepted ps)
    (hfits : Fits out.length ps) :
    perform ps ⟨out, none⟩ = .ok ⟨out ++ encodings out.length ps, none⟩ := by
  induction ps generalizing out with
  | nil =>
    rw [encodings, List.append_nil]
    rfl
  | cons p ps ih =>
    obtain ⟨hp, hps⟩ := List.forall_mem_cons.mp h
    obtain ⟨hfirst, hrest⟩ := fits_cons_iff.mp hfits
    rw [perform_cons, Put.run_of_accepted hp hfirst, encodings, ← List.append_assoc,
      ← List.length_append]
    refine ih hps ?_
    rw [List.length_append]
    exact hrest hp

/-- **What is refused first, and all after it, appends nothing.** -/
theorem perform_of_refused {before after : List Put} {p : Put} {e : DecodeError} {out : Bytes}
    (hbefore : Accepted before) (hp : Put.Refused p e) (hfits : Fits out.length before) :
    perform (before ++ p :: after) ⟨out, none⟩ =
      .ok ⟨out ++ encodings out.length before, some e⟩ := by
  rw [perform_append, perform_of_accepted hbefore hfits]
  change perform (p :: after) _ = _
  rw [perform_cons, Put.run_of_refused hp]
  exact perform_failed after _ e

/-- **Padding that no buffer can hold is a fault**, unless something in front of it is refused. -/
theorem perform_of_overflow {ps : List Put} {out : Bytes} (h : ¬ Fits out.length ps) :
    perform ps ⟨out, none⟩ = .error .oversized := by
  induction ps generalizing out with
  | nil =>
    refine absurd ?_ h
    intro before p after hps
    simp at hps
  | cons p ps ih =>
    rw [perform_cons]
    by_cases hp : p.Fits out.length
    · rw [fits_cons_iff] at h
      push Not at h
      obtain ⟨haccepted, hrest⟩ := h hp
      rw [← List.length_append] at hrest
      rw [Put.run_of_accepted haccepted hp]
      exact ih hrest
    · rw [Put.run_of_overflow hp]
      rfl

/-- The first primitive that is refused. -/
theorem exists_first_refused {ps : List Put} (h : ¬ Accepted ps) :
    ∃ before p after e, ps = before ++ p :: after ∧ Accepted before ∧ Put.Refused p e := by
  induction ps with
  | nil => exact absurd (fun _ hq => absurd hq List.not_mem_nil) h
  | cons p ps ih =>
    by_cases hp : p.Accepted
    · have hps : ¬ Accepted ps := fun hps => h (List.forall_mem_cons.mpr ⟨hp, hps⟩)
      obtain ⟨before, q, after, e, rfl, hbefore, hq⟩ := ih hps
      exact ⟨p :: before, q, after, e, rfl, List.forall_mem_cons.mpr ⟨hp, hbefore⟩, hq⟩
    · unfold Put.Accepted at hp
      push Not at hp
      obtain ⟨e, he⟩ := hp
      exact ⟨[], p, ps, e, rfl, fun _ hq => absurd hq List.not_mem_nil, he⟩

/-- It is the only fault. -/
theorem perform_eq_error_iff {ps : List Put} {out : Bytes} {fault : Fault} :
    perform ps ⟨out, none⟩ = .error fault ↔ fault = .oversized ∧ ¬ Fits out.length ps := by
  by_cases hfits : Fits out.length ps
  · have hok : ∃ w, perform ps ⟨out, none⟩ = .ok w := by
      by_cases haccepted : Accepted ps
      · exact ⟨_, perform_of_accepted haccepted hfits⟩
      · obtain ⟨before, p, after, e, rfl, hbefore, hp⟩ := exists_first_refused haccepted
        exact ⟨_, perform_of_refused hbefore hp hfits.append_left⟩
    obtain ⟨w, hw⟩ := hok
    simp [hw, hfits]
  · rw [perform_of_overflow hfits]
    simp [hfits, eq_comm]

/-! ## 3. Programs -/

/-- A procedure is these primitives, one after the other.  The items of a vector and the fields of
a boxed value are procedures in turn. -/
inductive Performs : (Writer → Except Fault Writer) → List Put → Prop where
  | done : Performs .ok []
  | put (p : Put) : Performs p.run [p]
  | andThen {f g : Writer → Except Fault Writer} {ps qs : List Put} (hf : Performs f ps)
      (hg : Performs g qs) : Performs (fun w => f w >>= g) (ps ++ qs)
  | vector {α : Type} {items : List α} {item : Writer → α → Except Fault Writer}
      {parts : α → List Put} (hitems : ∀ a ∈ items, Performs (fun w => item w a) (parts a)) :
      Performs (fun w => w.vectorM items item)
        (.word32 vectorTag :: .word32 (UInt32.ofNat items.length) :: items.flatMap parts)
  | boxed {α : Type} [Tagged α] {a : α} {ps : List Put}
      (hfields : Performs (fun w => .ok (Bare.write w a)) ps) :
      Performs (fun w => .ok (w.boxed a)) (.word32 (Tagged.tag α) :: ps)

theorem foldlM_eq_perform {items : List α} {item : Writer → α → Except Fault Writer}
    {parts : α → List Put} (h : ∀ a ∈ items, ∀ w, item w a = perform (parts a) w) (w : Writer) :
    items.foldlM item w = perform (items.flatMap parts) w := by
  induction items generalizing w with
  | nil => rfl
  | cons a items ih =>
    have hrest := fun w => ih (fun b hb => h b (List.mem_cons_of_mem a hb)) w
    rw [List.foldlM_cons, List.flatMap_cons, perform_append, h a List.mem_cons_self]
    exact congrArg (perform (parts a) w >>= ·) (funext hrest)

/-- The head of a vector, without its items. -/
theorem Writer.vector_skip (w : Writer) (items : List α) :
    w.vector items (fun w _ => w) =
      (w.word32 vectorTag).word32 (UInt32.ofNat items.length) := by
  unfold Writer.vector
  generalize (w.word32 vectorTag).word32 (UInt32.ofNat items.length) = start
  induction items with
  | nil => rfl
  | cons a items ih => exact ih

/-- **A procedure does what its primitives do.** -/
theorem Performs.eq_perform {f : Writer → Except Fault Writer} {ps : List Put}
    (h : Performs f ps) (w : Writer) : f w = perform ps w := by
  induction h generalizing w with
  | done => rfl
  | put p =>
    rw [perform_cons]
    cases p.run w <;> rfl
  | @andThen f g ps qs _ _ ihf ihg =>
    change f w >>= g = _
    rw [perform_append, ihf w, funext ihg]
  | @vector α items item parts _ ih =>
    change items.foldlM item (w.vector items fun w _ => w) = _
    rw [Writer.vector_skip, foldlM_eq_perform ih]
    rfl
  | @boxed α _ a ps _ ih => exact ih (w.word32 (Tagged.tag α))

namespace Performs

variable {g k : Writer → Writer} {ps qs : List Put}

/-- One field after others. -/
theorem next (hg : Performs (fun w => .ok (g w)) ps) (hk : Performs (fun w => .ok (k w)) qs) :
    Performs (fun w => .ok (k (g w))) (ps ++ qs) :=
  hg.andThen hk

/-- A vector whose items always can be written. -/
theorem items {items : List α} {item : Writer → α → Writer} {parts : α → List Put}
    (hitems : ∀ a ∈ items, Performs (fun w => .ok (item w a)) (parts a)) :
    Performs (fun w => .ok (w.vector items item))
      (.word32 vectorTag :: .word32 (UInt32.ofNat items.length) :: items.flatMap parts) := by
  have hvector : (fun w : Writer => (.ok (w.vector items item) : Except Fault Writer)) =
      fun w => w.vectorM items fun w a => .ok (item w a) := by
    funext w
    change _ = items.foldlM (fun w a => pure (item w a)) (w.vector items fun w _ => w)
    rw [Writer.vector_skip, List.foldlM_pure]
    rfl
  rw [hvector]
  exact .vector hitems

end Performs

/-- The types of the bare values that are written. -/
inductive IsRecord : (α : Type) → [Bare α] → Prop where
  | reqPq : IsRecord ReqPq
  | resPq : IsRecord ResPq
  | pqInnerData : IsRecord PqInnerData
  | reqDhParams : IsRecord ReqDhParams
  | serverDhParamsOk : IsRecord ServerDhParamsOk
  | serverDhParamsFail : IsRecord ServerDhParamsFail
  | serverDhInnerData : IsRecord ServerDhInnerData
  | clientDhInnerData : IsRecord ClientDhInnerData
  | setClientDhParams : IsRecord SetClientDhParams
  | dhGenAnswer : IsRecord DhGenAnswer
  | msgsAck : IsRecord MsgsAck
  | ping : IsRecord Ping
  | pong : IsRecord Pong

open Performs in
/-- To write a bare value is to write its fields. -/
theorem IsRecord.performs [Bare α] (h : IsRecord α) (a : α) :
    ∃ ps, Performs (fun w => .ok (Bare.write w a)) ps := by
  have words (vs : List UInt64) : Performs (fun w => .ok (w.vector vs Writer.word64))
      (.word32 vectorTag :: .word32 (UInt32.ofNat vs.length) ::
        vs.flatMap fun v => [.word64 v]) := .items fun v _ => .put (.word64 v)
  have nonces (a b : Nonce) := (put (.octets a)).next (put (.octets b))
  cases h with
  | reqPq => exact ⟨_, put (.octets a.nonce)⟩
  | resPq =>
    exact ⟨_, ((nonces a.nonce a.serverNonce).next (put (.blob a.pq))).next
      (words a.fingerprints)⟩
  | pqInnerData =>
    exact ⟨_, ((((put (.blob a.pq)).next (put (.blob a.p))).next (put (.blob a.q))).next
      (nonces a.nonce a.serverNonce)).next (put (.octets a.newNonce))⟩
  | reqDhParams =>
    exact ⟨_, ((((nonces a.nonce a.serverNonce).next (put (.blob a.p))).next
      (put (.blob a.q))).next (put (.word64 a.publicKeyFingerprint))).next
      (put (.blob a.encryptedData))⟩
  | serverDhParamsOk =>
    exact ⟨_, (nonces a.nonce a.serverNonce).next (put (.blob a.encryptedAnswer))⟩
  | serverDhParamsFail =>
    exact ⟨_, (nonces a.nonce a.serverNonce).next (put (.octets a.newNonceHash))⟩
  | serverDhInnerData =>
    exact ⟨_, ((((nonces a.nonce a.serverNonce).next (put (.int32 a.g))).next
      (put (.blob a.dhPrime))).next (put (.blob a.gA))).next (put (.int32 a.serverTime))⟩
  | clientDhInnerData =>
    exact ⟨_, ((nonces a.nonce a.serverNonce).next (put (.word64 a.retryId))).next
      (put (.blob a.gB))⟩
  | setClientDhParams =>
    exact ⟨_, (nonces a.nonce a.serverNonce).next (put (.blob a.encryptedData))⟩
  | dhGenAnswer =>
    exact ⟨_, (nonces a.nonce a.serverNonce).next (put (.octets a.newNonceHash))⟩
  | msgsAck => exact ⟨_, words a.msgIds⟩
  | ping => exact ⟨_, put (.word64 a.pingId)⟩
  | pong => exact ⟨_, (put (.word64 a.msgId)).next (put (.word64 a.pingId))⟩

/-! ## 4. Runs -/

/-- The zero bytes that padding appends: as few as lead to a multiple of the alignment. -/
theorem encoding_padTo (len align : Nat) :
    ∃ k, (Put.padTo align).encoding len = List.replicate k 0 ∧ (align = 0 → k = 0) ∧
      (0 < align → IsLeast {k | align ∣ len + k} k) := by
  refine ⟨if align = 0 then 0 else paddingFor len align, rfl, fun h => if_pos h, fun h => ?_⟩
  rw [if_neg (Nat.ne_of_gt h)]
  refine ⟨Nat.dvd_of_mod_eq_zero (add_paddingFor_mod len h), fun k hk => ?_⟩
  rcases Nat.lt_or_ge k align with hlt | hge
  · exact (eq_paddingFor hlt (Nat.mod_eq_zero_of_dvd hk)).ge
  · exact (paddingFor_lt len h).le.trans hge

/-- A new writer, if there can be one. -/
theorem withCapacity_bind (capacity : Nat) (f : Writer → Except Fault Writer) :
    (Writer.withCapacity capacity >>= f) =
      if Bytes.maxBufferLength < capacity then .error .oversized else f ⟨[], none⟩ := by
  unfold Writer.withCapacity
  split <;> rfl

/-- **A writer keeps its first refusal.**  Writing a bare value is a procedure as any other, a blob
is written part by part to the buffer that is there, and padding appends as few zero bytes as lead
to a multiple.  A procedure that starts with a new writer does what its primitives do, one after
the other.

* It cannot go on only where a buffer would have to be longer than any can be: for the capacity it
  is to start with, or for padding, if nothing in front of that is refused.
* If nothing is refused, what comes of it are the encodings, one after the other.
* If something is refused, the first refusal is what comes of it.  At that primitive, and at each
  after it, there are the bytes of those in front and no more. -/
theorem first_refusal_kept :
    (∀ {α : Type} [Bare α], IsRecord α → ∀ a : α,
      ∃ ps, Performs (fun w => .ok (Bare.write w a)) ps) ∧
    (∀ out data : Bytes, (⟨out, none⟩ : Writer).blob data =
      match appendBlob data out with
      | (.ok (), out') => ⟨out', none⟩
      | (.error e, out') => ⟨out', some e⟩) ∧
    (∀ len align, ∃ k, (Put.padTo align).encoding len = List.replicate k 0 ∧
      (align = 0 → k = 0) ∧ (0 < align → IsLeast {k | align ∣ len + k} k)) ∧
    ∀ {f : Writer → Except Fault Writer} {ps : List Put}, Performs f ps → ∀ capacity : Nat,
      let run (qs : List Put) : Except Fault Writer := Writer.withCapacity capacity >>= perform qs
      (Writer.withCapacity capacity >>= f) = run ps ∧
      (∀ fault, run ps = .error fault ↔
        fault = .oversized ∧ (Bytes.maxBufferLength < capacity ∨ ¬ Fits 0 ps)) ∧
      (Accepted ps → ∀ w, run ps = .ok w → w.finish = .ok (encodings 0 ps)) ∧
      ∀ before p after e, ps = before ++ p :: after → Accepted before → Put.Refused p e →
        ∀ w, run ps = .ok w → w.finish = .error e ∧
          run before = .ok ⟨encodings 0 before, none⟩ ∧
          ∀ done rest, after = done ++ rest →
            run (before ++ p :: done) = .ok ⟨encodings 0 before, some e⟩ := by
  refine ⟨IsRecord.performs, blob_eq_appendBlob, encoding_padTo, ?_⟩
  intro f ps hf capacity run
  refine ⟨congrArg (Writer.withCapacity capacity >>= ·) (funext hf.eq_perform), ?_⟩
  by_cases hcapacity : Bytes.maxBufferLength < capacity
  · -- there is no writer to start with
    have hrun : ∀ qs, run qs = .error .oversized :=
      fun qs => (withCapacity_bind capacity (perform qs)).trans (if_pos hcapacity)
    simp [hrun, hcapacity, eq_comm]
  have hrun : ∀ qs, run qs = perform qs ⟨[], none⟩ :=
    fun qs => (withCapacity_bind capacity (perform qs)).trans (if_neg hcapacity)
  simp only [hrun, hcapacity, false_or]
  have hfits : ∀ {w}, perform ps ⟨[], none⟩ = .ok w → Fits 0 ps := by
    intro w hw
    by_contra hlong
    have hstop : perform ps ⟨[], none⟩ = .error .oversized := perform_of_overflow hlong
    rw [hstop] at hw
    cases hw
  refine ⟨fun fault => perform_eq_error_iff, ?accepted, ?refused⟩
  case accepted =>
    intro haccepted w hw
    have hend : perform ps ⟨[], none⟩ = .ok ⟨encodings 0 ps, none⟩ :=
      perform_of_accepted haccepted (hfits hw)
    rw [hend] at hw
    cases hw
    rfl
  case refused =>
    rintro before p after e rfl hbefore hp w hw
    have hbeforefits : Fits 0 before := (hfits hw).append_left
    have hstop : ∀ done, perform (before ++ p :: done) ⟨[], none⟩ =
        .ok ⟨encodings 0 before, some e⟩ :=
      fun done => perform_of_refused hbefore hp hbeforefits
    refine ⟨?_, perform_of_accepted hbefore hbeforefits, fun done _ _ => hstop done⟩
    rw [hstop after] at hw
    cases hw
    rfl

/-- A vector with an item that is too large, and a boxed value behind it. -/
theorem first_refusal_kept_item :
    let f : Writer → Except Fault Writer := fun w =>
      (w.vectorM [7, 0x1000000] fun w v => .ok (w.uint v 24)) >>= fun w =>
        .ok (w.boxed (⟨5⟩ : Ping))
    let before : List Put := [.word32 vectorTag, .word32 2, .uint 7 24]
    let after : List Put := [.word32 (Tagged.tag Ping), .word64 5]
    let refused : Put := .uint 0x1000000 24
    let w : Writer := ⟨encodings 0 before, some (.overflow 0x1000000 24)⟩
    Performs f (before ++ refused :: after) ∧ Accepted before ∧
      Put.Refused refused (.overflow 0x1000000 24) ∧ (Writer.withCapacity 16 >>= f) = .ok w ∧
      w.bytes.length = 11 ∧ w.finish = .error (.overflow 0x1000000 24) := by
  intro f before after refused w
  have hitems : Performs (fun w => w.vectorM [7, 0x1000000] fun w v => .ok (w.uint v 24))
      (before ++ [refused]) :=
    @Performs.vector Nat _ _ (fun v => [.uint v 24]) fun v _ => .put (.uint v 24)
  have hf : Performs f (before ++ refused :: after) := hitems.andThen (.boxed (.put (.word64 5)))
  have hword : ∀ v, (Put.word32 v).Accepted := fun v e he => nomatch he
  have hseven : (Put.uint 7 24).Accepted := by
    intro e he
    cases he with
    | width h => exact h (by decide)
    | range _ h => exact absurd h (by decide)
  have hbefore : Accepted before :=
    List.forall_mem_cons.mpr ⟨hword _, List.forall_mem_cons.mpr ⟨hword _,
      List.forall_mem_singleton.mpr hseven⟩⟩
  have hrefused : Put.Refused refused (.overflow 0x1000000 24) := .range (by decide) (by decide)
  obtain ⟨-, -, -, hall⟩ := first_refusal_kept
  obtain ⟨heq, -, -, hkept⟩ := hall hf 16
  have hw : (Writer.withCapacity 16 >>= f) = .ok w := by decide
  exact ⟨hf, hbefore, hrefused, hw, by decide,
    (hkept before refused after _ rfl hbefore hrefused w (heq ▸ hw)).1⟩

end Mtproto.Wire
