import Mathlib.Tactic.Common
import Mtproto.Proofs.Act
import Mtproto.Proofs.Wire

/-!
# Blobs in a buffer

`Writer.blob` writes a blob behind what its buffer holds already, part by part: the header, the
data, the padding.  `appendBlob` is this procedure on a buffer of any contents.

The padding is counted from where the blob starts, so it does not depend on the alignment of the
buffer.  And a length that does not fit into three bytes is refused before the first byte of the
header is written, so the buffer is then as it was.

* `appendBlob_eq`: the procedure appends `blobBytes data`, or refuses and leaves the buffer alone.
* `decodeBlob_eq_ok_iff`: exactly what is read at the front of a string; more than is ever written,
  namely a short length in four bytes as well, and padding that is not zero.
* `blobs_written_and_read`: the two together, for every buffer and every string.
-/

namespace Mtproto.Wire

/-! ## 1. Writing part by part -/

/-- A procedure that writes to a buffer.  What it has written before it fails stays there. -/
abbrev Fill := ExceptT DecodeError (StateM Bytes)

namespace Fill

/-- Write bytes at the end. -/
def extend (bs : Bytes) : Fill Unit :=
  modify (· ++ bs)

/-- The length of the buffer. -/
def length : Fill Nat :=
  return (← get).length

/-- The result, or fail. -/
def ofExcept {α : Type} (r : Except DecodeError α) : Fill α :=
  match r with
  | .ok a => pure a
  | .error e => throw e

end Fill

/-- Write the length prefix of a blob of `len` bytes. -/
def appendHeader (len : Nat) : Fill Unit :=
  if len < longMarker.toNat then Fill.extend [UInt8.ofNat len]
  else if maxBlobLength < len then throw (.overflow len 24)
  else do
    Fill.extend [longMarker]
    Fill.extend (← Fill.ofExcept (encodeUint24 (UInt32.ofNat len))).bytes

/-- Write a blob. -/
def appendBlob (data : Bytes) : Fill Unit := do
  let start ← Fill.length
  appendHeader data.length
  Fill.extend data
  let written := (← Fill.length) - start
  Fill.extend (List.replicate (paddingFor written 4) 0)

theorem run_appendHeader {len : Nat} (h : len ≤ maxBlobLength) (out : Bytes) :
    appendHeader len out = (.ok (), out ++ blobHeader len) := by
  have hmarker : longMarker.toNat = 254 := rfl
  have hlength : encodeUint24 (UInt32.ofNat len) = .ok (Octets.le 3 len) := by
    have hlt : len < 2 ^ 24 := Nat.lt_succ_of_le h
    rw [encodeUint24_ofNat (Nat.lt_trans hlt (by decide)), if_pos hlt]
  rw [appendHeader, blobHeader, hmarker]
  by_cases hshort : len < 254
  · rw [if_pos hshort, if_pos hshort]
    rfl
  · rw [if_neg hshort, if_neg hshort, if_neg (Nat.not_lt.mpr h), hlength]
    -- the marker is written, and then the three bytes behind it
    have hparts : out ++ longMarker :: Bytes.le 3 len =
        out ++ [longMarker] ++ (Octets.le 3 len).bytes := by
      rw [List.append_assoc]
      rfl
    rw [hparts]
    rfl

/-- A length that does not fit is refused before the marker is written. -/
theorem run_appendHeader_of_lt {len : Nat} (h : maxBlobLength < len) (out : Bytes) :
    appendHeader len out = (.error (.overflow len 24), out) := by
  have hlong : ¬ len < longMarker.toNat := by
    have hmarker : longMarker.toNat ≤ maxBlobLength := by decide
    omega
  rw [appendHeader, if_neg hlong, if_pos h]
  rfl

/-- **Behind any buffer the same bytes are written.** -/
theorem run_appendBlob {data : Bytes} (h : data.length ≤ maxBlobLength) (out : Bytes) :
    appendBlob data out = (.ok (), out ++ blobBytes data) := by
  have hheader := run_appendHeader h out
  have hwritten : (out ++ blobHeader data.length ++ data).length - out.length =
      (blobHeader data.length).length + data.length := by
    simp only [List.length_append]
    omega
  have hrun : appendBlob data out = (.ok (), out ++ blobHeader data.length ++ data ++
      List.replicate (paddingFor ((out ++ blobHeader data.length ++ data).length - out.length) 4)
        0) := by
    have hlength : Fill.length out = (.ok out.length, out) := rfl
    rw [appendBlob, run_bind_ok hlength, run_bind_ok hheader]
    rfl
  rw [hrun, hwritten, blobBytes]
  simp only [List.append_assoc]

theorem run_appendBlob_of_lt {data : Bytes} (h : maxBlobLength < data.length) (out : Bytes) :
    appendBlob data out = (.error (.overflow data.length 24), out) := by
  have hlength : Fill.length out = (.ok out.length, out) := rfl
  rw [appendBlob, run_bind_ok hlength, run_bind, run_appendHeader_of_lt h]

/-- **A buffer gets the wire form of the data, or nothing.** -/
theorem appendBlob_eq (data out : Bytes) :
    appendBlob data out =
      match encodeBlob data with
      | .ok bs => (.ok (), out ++ bs)
      | .error e => (.error e, out) := by
  rcases Nat.lt_or_ge maxBlobLength data.length with hlong | hfits
  · have hencode : encodeBlob data = .error (.overflow data.length 24) := if_pos hlong
    rw [hencode, run_appendBlob_of_lt hlong]
  · rw [encodeBlob_of_le hfits, run_appendBlob hfits]

/-- A writer that has not failed writes its blobs in this way. -/
theorem blob_eq_appendBlob (out data : Bytes) :
    (⟨out, none⟩ : Writer).blob data =
      match appendBlob data out with
      | (.ok (), out') => ⟨out', none⟩
      | (.error e, out') => ⟨out', some e⟩ := by
  rw [appendBlob_eq, Writer.blob]
  cases encodeBlob data <;> rfl

/-- The bytes that are written are as many as `blobEncodedLength` says. -/
theorem checkedBlobLength_of_le {data : Bytes} (h : data.length ≤ maxBlobLength) :
    checkedBlobLength data.length = .ok (blobBytes data).length := by
  have hlength : blobEncodedLength data.length = (blobBytes data).length := by
    rw [length_blobBytes, length_blobHeader, blobEncodedLength]
  have hle := length_blobBytes_le data
  have hcount : ¬ UInt64.size ≤ blobEncodedLength data.length := by
    rw [hlength, Nat.not_le]
    have hsize : maxBlobLength + 7 < UInt64.size := by decide
    omega
  rw [checkedBlobLength, if_neg hcount, hlength]

/-! ## 2. The front of a string -/

/-- Padding is what makes the whole a multiple of four with fewer than four bytes. -/
theorem isBlob_iff {bs data : Bytes} :
    IsBlob bs data ↔ bs.length % 4 = 0 ∧ ∃ header padding, IsBlobHeader header data.length ∧
      bs = header ++ (data ++ padding) ∧ padding.length ≤ 3 := by
  constructor
  · rintro ⟨header, padding, hheader, rfl, hpadding⟩
    have hlt := paddingFor_lt (header.length + data.length) (show 0 < 4 by decide)
    refine ⟨?_, header, padding, hheader, rfl, by omega⟩
    rw [length_of_isBlob hpadding]
    exact add_paddingFor_mod _ (by decide)
  · rintro ⟨hmod, header, padding, hheader, rfl, hpadding⟩
    refine ⟨header, padding, hheader, rfl, eq_paddingFor (by omega) ?_⟩
    rwa [List.length_append, List.length_append, ← Nat.add_assoc] at hmod

/-- **What is read at the front of a string.** -/
theorem decodeBlob_eq_ok_iff {bs data : Bytes} {n : Nat} :
    decodeBlob bs = .ok (data, n) ↔ n ≤ bs.length ∧ IsBlob (bs.take n) data := by
  constructor
  · exact isBlob_of_decodeBlob
  · rintro ⟨hn, hblob⟩
    have hread := decodeBlob_append hblob (bs.drop n)
    rwa [List.take_append_drop, List.length_take_of_le hn] at hread

/-! ## 3. Both together -/

/-- **Writing to a buffer, and reading at the front of a string.**

* Data that are not too long are written behind any buffer in the same bytes: as many as announced,
  a multiple of four, and read back whatever follows them.
* Data that are too long are refused, and the buffer stays as it is.
* `n` bytes at the front of a string are read as the data exactly if they are a header that
  announces their length, the data, and at most three more bytes up to a multiple of four.
* What has been read is never shorter than what is written for the same data. -/
theorem blobs_written_and_read :
    (∀ data : Bytes, data.length ≤ maxBlobLength →
      ∃ bs, (∀ out, appendBlob data out = (.ok (), out ++ bs)) ∧
        checkedBlobLength data.length = .ok bs.length ∧ bs.length % 4 = 0 ∧
        ∀ rest, decodeBlob (bs ++ rest) = .ok (data, bs.length)) ∧
    (∀ data out : Bytes, maxBlobLength < data.length →
      appendBlob data out = (.error (.overflow data.length 24), out)) ∧
    (∀ (bs data : Bytes) (n : Nat), decodeBlob bs = .ok (data, n) ↔
      n ≤ bs.length ∧ n % 4 = 0 ∧ ∃ header padding : Bytes,
        ((data.length < 254 ∧ header = [UInt8.ofNat data.length]) ∨
          (data.length ≤ 0xFFFFFF ∧ header = 254 :: Bytes.le 3 data.length)) ∧
        bs.take n = header ++ (data ++ padding) ∧ padding.length ≤ 3) ∧
    ∀ (bs data : Bytes) (n : Nat), decodeBlob bs = .ok (data, n) →
      ∃ written, (∀ out, appendBlob data out = (.ok (), out ++ written)) ∧
        written.length ≤ n := by
  refine ⟨?written, fun data out h => run_appendBlob_of_lt h out, ?front, ?shortest⟩
  case written =>
    intro data h
    have hblob := isBlob_blobBytes h
    exact ⟨blobBytes data, run_appendBlob h, checkedBlobLength_of_le h, (isBlob_iff.mp hblob).1,
      decodeBlob_append hblob⟩
  case front =>
    intro bs data n
    rw [decodeBlob_eq_ok_iff, isBlob_iff]
    refine and_congr_right fun hn => ?_
    rw [List.length_take_of_le hn]
    exact Iff.rfl
  case shortest =>
    intro bs data n h
    obtain ⟨hn, hblob⟩ := isBlob_of_decodeBlob h
    refine ⟨blobBytes data, run_appendBlob hblob.length_data_le, ?_⟩
    have hle := hblob.length_blobBytes_le
    rwa [List.length_take_of_le hn] at hle

/-- The shortest data with a header of four bytes, data that are too long, and one byte that is
announced in four. -/
theorem blobs_written_and_read_around :
    let data : Bytes := List.replicate 254 7
    let long : Bytes := List.replicate 0x1000000 0
    let bs : Bytes := [254, 1, 0, 0, 5, 9, 9, 9]
    data.length ≤ maxBlobLength ∧ maxBlobLength < long.length ∧ decodeBlob bs = .ok ([5], 8) ∧
      (∃ written, (∀ out, appendBlob data out = (.ok (), out ++ written)) ∧
        checkedBlobLength 254 = .ok written.length) ∧
      appendBlob long [1, 2, 3] = (.error (.overflow 0x1000000 24), [1, 2, 3]) ∧
      ∃ written, (∀ out, appendBlob [5] out = (.ok (), out ++ written)) ∧ written.length ≤ 8 := by
  intro data long bs
  have hdata : data.length = 254 := List.length_replicate
  have hlong : long.length = 0x1000000 := List.length_replicate
  have hfits : data.length ≤ maxBlobLength := by rw [hdata]; decide
  have hlt : maxBlobLength < long.length := by rw [hlong]; decide
  have hbs : decodeBlob bs = .ok ([5], 8) := by decide
  obtain ⟨hwritten, hrefused, -, hshortest⟩ := blobs_written_and_read
  refine ⟨hfits, hlt, hbs, ?_, ?_, hshortest bs [5] 8 hbs⟩
  · obtain ⟨written, happend, hlength, -⟩ := hwritten data hfits
    rw [hdata] at hlength
    exact ⟨written, happend, hlength⟩
  · have h := hrefused long [1, 2, 3] hlt
    rwa [hlong] at h

end Mtproto.Wire
