import Mathlib.Tactic.Common
import Mtproto.Proofs.Bytes
import Mtproto.Wire.Blob

/-!
# The grammar of blobs

A blob is a byte string with its length in front and padding behind it, up to a multiple of four.
`encodeBlob` writes one and `decodeBlob` reads one at the front of a string.  `IsBlob bs data` says
that `bs` is a blob that holds `data`: a header that announces the length of `data`, in one byte or
in four, then `data`, then any bytes up to a multiple of four.

A string may be a blob in two ways that `encodeBlob` does not write: a short length in four bytes,
and padding that is not zero.  The reader takes these too, so the two sides are stated apart.

* `isBlob_blobBytes`: what is written is a blob, and the shortest one
  (`IsBlob.length_blobBytes_le`).
* `decodeBlob_append`: every blob is read at the front of a string, whatever follows it.
* `isBlob_of_decodeBlob`: what is read at the front of a string is a blob.
-/

namespace Mtproto.Wire

/-! ## 1. The grammar -/

/-- A prefix that announces `len` bytes. -/
def IsBlobHeader (header : Bytes) (len : Nat) : Prop :=
  (len < 254 ∧ header = [UInt8.ofNat len]) ∨
    (len ≤ maxBlobLength ∧ header = longMarker :: Bytes.le 3 len)

/-- A header, the data, and padding. -/
def IsBlob (bs data : Bytes) : Prop :=
  ∃ header padding, IsBlobHeader header data.length ∧ bs = header ++ (data ++ padding) ∧
    padding.length = paddingFor (header.length + data.length) 4

/-- What is written for data that are not too long. -/
def blobBytes (data : Bytes) : Bytes :=
  let header := blobHeader data.length
  header ++ (data ++ List.replicate (paddingFor (header.length + data.length) 4) 0)

/-- A number in three bytes. -/
theorem encodeUint24_ofNat {n : Nat} (h : n < UInt32.size) :
    encodeUint24 (UInt32.ofNat n) =
      if n < 2 ^ 24 then .ok (Octets.le 3 n) else .error (.overflow n 24) := by
  have htoNat : (UInt32.ofNat n).toNat = n := UInt32.toNat_ofNat_of_lt' h
  have hfits : (0xFFFFFF : UInt32) < UInt32.ofNat n ↔ ¬ n < 2 ^ 24 := by
    rw [UInt32.lt_iff_toNat_lt, htoNat]
    exact ⟨Nat.not_lt.mpr, Nat.not_lt.mp⟩
  rw [encodeUint24, htoNat]
  by_cases hn : n < 2 ^ 24
  · rw [if_pos hn, if_neg fun hmany => hfits.mp hmany hn]
  · rw [if_neg hn, if_pos (hfits.mpr hn)]

theorem encodeBlob_of_le {data : Bytes} (h : data.length ≤ maxBlobLength) :
    encodeBlob data = .ok (blobBytes data) :=
  if_neg (Nat.not_lt.mpr h)

theorem isBlobHeader_blobHeader {len : Nat} (h : len ≤ maxBlobLength) :
    IsBlobHeader (blobHeader len) len := by
  unfold blobHeader
  split
  · exact Or.inl ⟨by assumption, rfl⟩
  · exact Or.inr ⟨h, rfl⟩

/-- What is written is a blob. -/
theorem isBlob_blobBytes {data : Bytes} (h : data.length ≤ maxBlobLength) :
    IsBlob (blobBytes data) data :=
  ⟨blobHeader data.length, _, isBlobHeader_blobHeader h, rfl, List.length_replicate⟩

theorem length_blobHeader (len : Nat) :
    (blobHeader len).length = if len < 254 then 1 else 4 := by
  unfold blobHeader
  split <;> simp

theorem length_of_isBlob {header padding data : Bytes}
    (h : padding.length = paddingFor (header.length + data.length) 4) :
    (header ++ (data ++ padding)).length =
      header.length + data.length + paddingFor (header.length + data.length) 4 := by
  simp only [List.length_append, h]
  omega

theorem length_blobBytes (data : Bytes) :
    (blobBytes data).length = (blobHeader data.length).length + data.length +
      paddingFor ((blobHeader data.length).length + data.length) 4 :=
  length_of_isBlob List.length_replicate

/-- Header and padding are at most seven bytes. -/
theorem length_blobBytes_le (data : Bytes) : (blobBytes data).length ≤ data.length + 7 := by
  have hheader : (blobHeader data.length).length ≤ 4 := by
    rw [length_blobHeader]
    split <;> decide
  have hpadding := paddingFor_lt ((blobHeader data.length).length + data.length)
    (show 0 < 4 by decide)
  rw [length_blobBytes]
  omega

/-- Fewer data do not take more bytes. -/
theorem length_blobBytes_mono {a b : Bytes} (h : a.length ≤ b.length) :
    (blobBytes a).length ≤ (blobBytes b).length := by
  rw [length_blobBytes, length_blobBytes, length_blobHeader, length_blobHeader]
  unfold paddingFor
  split <;> split <;> omega

/-! ## 2. Reading -/

/-- The bytes of a blob, padding included, by the length of its header. -/
theorem IsBlob.exists_length {bs data : Bytes} (h : IsBlob bs data) :
    ∃ header, IsBlobHeader header data.length ∧
      bs.length = header.length + data.length + paddingFor (header.length + data.length) 4 := by
  obtain ⟨header, padding, hheader, rfl, hpadding⟩ := h
  exact ⟨header, hheader, length_of_isBlob hpadding⟩

/-- What a blob holds is not too long to be written. -/
theorem IsBlob.length_data_le {bs data : Bytes} (h : IsBlob bs data) :
    data.length ≤ maxBlobLength := by
  obtain ⟨header, ⟨hlen, -⟩ | ⟨hlen, -⟩, -⟩ := h.exists_length
  · unfold maxBlobLength
    omega
  · exact hlen

/-- **No blob is shorter than the one that is written.** -/
theorem IsBlob.length_blobBytes_le {bs data : Bytes} (h : IsBlob bs data) :
    (blobBytes data).length ≤ bs.length := by
  obtain ⟨header, hheader, hbs⟩ := h.exists_length
  have hle : (blobHeader data.length).length ≤ header.length := by
    rw [length_blobHeader]
    rcases hheader with ⟨hlen, rfl⟩ | ⟨-, rfl⟩
    · simp [hlen]
    · split <;> simp
  rw [length_blobBytes, hbs]
  unfold paddingFor
  omega

theorem decodeBlobBody_append {header padding data : Bytes} (rest : Bytes)
    (h : padding.length = paddingFor (header.length + data.length) 4) :
    decodeBlobBody (header ++ (data ++ padding) ++ rest) header.length data.length =
      .ok (data, (header ++ (data ++ padding)).length) := by
  have hlen := length_of_isBlob h
  rw [decodeBlobBody, ← hlen, List.take_left, if_neg (Nat.lt_irrefl _), List.append_assoc,
    List.append_assoc, List.drop_left, List.take_left]

/-- **Every blob is read, whatever follows it.** -/
theorem decodeBlob_append {bs data : Bytes} (h : IsBlob bs data) (rest : Bytes) :
    decodeBlob (bs ++ rest) = .ok (data, bs.length) := by
  obtain ⟨header, padding, hheader, rfl, hpadding⟩ := h
  have hbody := decodeBlobBody_append rest hpadding
  rcases hheader with ⟨hlen, rfl⟩ | ⟨hlen, rfl⟩
  · have hfirst : (UInt8.ofNat data.length).toNat = data.length := by
      rw [UInt8.toNat_ofNat']
      omega
    have hne : ∀ k : UInt8, k.toNat = 254 ∨ k.toNat = 255 → UInt8.ofNat data.length ≠ k := by
      rintro k hk rfl
      omega
    rw [List.cons_append, List.cons_append] at hbody ⊢
    unfold decodeBlob
    simp only [if_neg (hne 255 (Or.inr rfl)), if_neg (hne longMarker (Or.inl rfl)), hfirst]
    exact hbody
  · have hread : Bytes.ofLE (Bytes.le 3 data.length) = data.length := by
      refine Bytes.ofLE_le_of_lt ?_
      unfold maxBlobLength at hlen
      omega
    have hmarker : longMarker ≠ 255 := by decide
    simp only [Bytes.le, List.cons_append, List.nil_append] at hbody hread ⊢
    rw [decodeBlob, if_neg hmarker, if_pos rfl]
    simp only [hread]
    exact hbody

theorem decodeBlobBody_eq_ok_iff {bs data : Bytes} {header len n : Nat} :
    decodeBlobBody bs header len = .ok (data, n) ↔
      n = header + len + paddingFor (header + len) 4 ∧ n ≤ bs.length ∧
        data = (bs.drop header).take len := by
  unfold decodeBlobBody
  simp only [List.length_take]
  split
  · simp only [reduceCtorEq, false_iff, not_and]
    intro hn hle
    omega
  · simp only [Except.ok.injEq, Prod.mk.injEq]
    constructor
    · rintro ⟨rfl, rfl⟩
      exact ⟨rfl, by omega, rfl⟩
    · rintro ⟨rfl, -, rfl⟩
      exact ⟨rfl, rfl⟩

/-- The three parts of a blob whose header has been read. -/
theorem isBlob_of_decodeBlobBody {bs data : Bytes} {header len n : Nat}
    (hh : IsBlobHeader (bs.take header) len) (hle : header ≤ bs.length)
    (h : decodeBlobBody bs header len = .ok (data, n)) :
    n ≤ bs.length ∧ IsBlob (bs.take n) data := by
  obtain ⟨hn, hbs, rfl⟩ := decodeBlobBody_eq_ok_iff.mp h
  have hdata : ((bs.drop header).take len).length = len := by
    rw [List.length_take, List.length_drop]
    omega
  have hheader : (bs.take header).length = header := List.length_take_of_le hle
  refine ⟨hbs, bs.take header, (bs.drop (header + len)).take (n - (header + len)), ?_, ?_, ?_⟩
  · rw [hdata]
    exact hh
  · have hsum : n = header + (len + (n - (header + len))) := by omega
    conv_lhs => rw [hsum, List.take_add, List.take_add, List.drop_drop]
  · rw [hdata, hheader, List.length_take, List.length_drop]
    omega

/-- **What is read at the front of a string is a blob.** -/
theorem isBlob_of_decodeBlob {bs data : Bytes} {n : Nat} (h : decodeBlob bs = .ok (data, n)) :
    n ≤ bs.length ∧ IsBlob (bs.take n) data := by
  unfold decodeBlob at h
  split at h
  · cases h
  · rename_i first rest
    split at h
    · cases h
    · split at h
      · rename_i hmarker
        split at h
        · rename_i a b c tail
          have hlt := Bytes.ofLE_lt [a, b, c]
          have hback := Bytes.le_ofLE [a, b, c]
          refine isBlob_of_decodeBlobBody (Or.inr ⟨?_, ?_⟩) (by simp) h
          · unfold maxBlobLength
            simp only [List.length_cons, List.length_nil] at hlt
            omega
          · simp only [List.length_cons, List.length_nil] at hback
            rw [hback, hmarker]
            rfl
        · cases h
      · rename_i h255 hmarker
        have hlt : first.toNat < 254 := by
          have h1 : first.toNat ≠ 255 := fun e => h255 (UInt8.toNat_inj.mp e)
          have h2 : first.toNat ≠ 254 := fun e => hmarker (UInt8.toNat_inj.mp e)
          have h3 := first.toNat_lt
          omega
        refine isBlob_of_decodeBlobBody (Or.inl ⟨hlt, ?_⟩) (by simp) h
        simp

end Mtproto.Wire
