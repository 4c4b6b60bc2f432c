import Mathlib.Tactic.Common
import Mtproto.Proofs.Blob
import Mtproto.Transport.Frame

/-!
# A frame on the wire

The transport cuts a stream into frames, whole numbers of 32-bit words with the number of words in
front.  `writeFrame` writes a frame, `scanFrame` looks at the start of what has arrived, and
`readFrame` does the same for a stream that will not grow any more.

* `frameHeader_eq_ok`, `frameHeader_eq_error`: a frame is written behind its length, in one byte or
  in four, unless it is not whole words or has too many of them.
* `readFrame_written`: at the front of a stream it comes back, and the stream behind it is left.
* `readFrame_part`: of a part of a frame only the end of the stream is seen, and it is never taken
  for a shorter frame.
* `readFrame_code`: a single word is taken for the error code of a server that gives up.
-/

namespace Mtproto.Transport

open Wire

/-! ## 1. Lengths -/

/-- What stands in front of a frame of so many words. -/
def headerOf (words : Nat) : Bytes :=
  if words < 127 then [UInt8.ofNat words] else longLength :: Bytes.le 3 words

/-- A frame as it is written. -/
def written (frame : Bytes) : Bytes :=
  headerOf (frame.length / 4) ++ frame

/-- All that can come of a length. -/
theorem frameHeader_eq (length : Nat) :
    frameHeader length =
      if length % 4 ≠ 0 then .error (.transport (.unaligned length))
      else if length / 4 < 2 ^ 24 then .ok (headerOf (length / 4))
      else if length / 4 < UInt32.size then .error (.decode (.overflow (length / 4) 24))
      else .error (.transport (.tooLarge length)) := by
  have hlong : longLength.toNat = 127 := rfl
  have hsize : UInt32.size = 2 ^ 32 := rfl
  by_cases hwhole : length % 4 = 0
  · rw [if_neg (by simpa using hwhole)]
    by_cases hshort : length / 4 < 127
    · rw [if_pos (by omega)]
      simp [frameHeader, headerOf, hwhole, hlong, hshort, pure, Except.pure]
    · by_cases hword : length / 4 < UInt32.size
      · have hlift : frameHeader length =
            (DecodeError.lift (encodeUint24 (UInt32.ofNat (length / 4)))).map
              fun o => longLength :: o.bytes := by
          simp [frameHeader, hwhole, hlong, hshort, Nat.not_le.mpr hword, Functor.map]
        rw [hlift, encodeUint24_ofNat hword, if_pos hword, headerOf, if_neg hshort]
        split <;> rfl
      · rw [if_neg (by omega), if_neg hword]
        simp [frameHeader, hwhole, hlong, hshort, Nat.not_lt.mp hword]
        rfl
  · rw [if_pos hwhole]
    simp [frameHeader, hwhole]
    rfl

theorem frameHeader_eq_ok {length : Nat} (hwhole : length % 4 = 0)
    (hcounted : length ≤ 4 * (2 ^ 24 - 1)) : frameHeader length = .ok (headerOf (length / 4)) := by
  rw [frameHeader_eq, if_neg (by simpa using hwhole), if_pos (by omega)]

/-- What is not whole words, or more words than three bytes can count, has no header. -/
theorem frameHeader_eq_error {length : Nat}
    (h : length % 4 ≠ 0 ∨ 4 * (2 ^ 24 - 1) < length) : ∃ e, frameHeader length = .error e := by
  rw [frameHeader_eq]
  by_cases hwhole : length % 4 = 0
  · have hmany : ¬ length / 4 < 2 ^ 24 := by omega
    rw [if_neg (by simpa using hwhole), if_neg hmany]
    split
    · exact ⟨_, rfl⟩
    · exact ⟨_, rfl⟩
  · exact ⟨_, if_pos hwhole⟩

theorem writeFrame_eq_ok {frame : Bytes} (hwhole : frame.length % 4 = 0)
    (hcounted : frame.length ≤ 4 * (2 ^ 24 - 1)) : writeFrame frame = .ok (written frame) := by
  rw [writeFrame, frameHeader_eq_ok hwhole hcounted]
  rfl

/-- Such a frame is not written either. -/
theorem writeFrame_eq_error {frame : Bytes}
    (h : frame.length % 4 ≠ 0 ∨ 4 * (2 ^ 24 - 1) < frame.length) :
    ∃ e, writeFrame frame = .error e := by
  obtain ⟨e, he⟩ := frameHeader_eq_error h
  refine ⟨e, ?_⟩
  rw [writeFrame, he]
  rfl

/-! ## 2. Scanning -/

theorem scanFrame_headerOf {words : Nat} (h : words < 2 ^ 24) (limit : Nat) (stream : Bytes) :
    scanFrame limit (headerOf words ++ stream) = scanBody limit words stream := by
  unfold headerOf
  split
  · rename_i hshort
    have htoNat : (UInt8.ofNat words).toNat = words :=
      UInt8.toNat_ofNat_of_lt' (lt_trans hshort (by decide))
    have hlt : UInt8.ofNat words < longLength := by
      rw [UInt8.lt_iff_toNat_lt, htoNat]
      exact hshort
    rw [List.singleton_append]
    unfold scanFrame
    exact (if_pos hlt).trans (by rw [htoNat])
  · have hthree : Bytes.ofLE (Bytes.le 3 words) = words := Bytes.ofLE_le_of_lt (by omega)
    rw [List.cons_append]
    unfold scanFrame
    exact (if_neg (by decide)).trans
      ((if_pos rfl).trans (congrArg (scanBody limit · stream) hthree))

/-- Of a part of a header no more is seen than that something has begun. -/
theorem scanFrame_take_headerOf {words k : Nat} (hk : k < (headerOf words).length) (limit : Nat) :
    scanFrame limit ((headerOf words).take k) = if k = 0 then .nothing else .unfinished := by
  unfold headerOf at hk ⊢
  split at hk
  · rename_i hshort
    have hnone : k = 0 := by simpa using hk
    rw [hnone]
    rfl
  · rename_i hlong
    rw [if_neg hlong]
    rw [List.length_cons, Bytes.length_le] at hk
    -- Up to three bytes: the marker, and a length that is not complete.
    rcases k with _ | _ | _ | _ | k
    · rfl
    · rfl
    · rfl
    · rfl
    · omega

theorem length_headerOf_pos (words : Nat) : 0 < (headerOf words).length := by
  unfold headerOf
  split <;> simp

theorem scanBody_whole {limit words : Nat} {frame : Bytes} (hlength : frame.length = words * 4)
    (hlimit : words * 4 ≤ limit) (rest : Bytes) :
    scanBody limit words (frame ++ rest) =
      if words * 4 = 4 then .refused (.serverCode (UInt32.ofNat (Bytes.ofLE frame)).toInt32) rest
      else .frame frame rest := by
  have htake : (frame ++ rest).take (words * 4) = frame := List.take_left' hlength
  have hdrop : (frame ++ rest).drop (words * 4) = rest := List.drop_left' hlength
  simp only [scanBody, if_neg (Nat.not_lt.mpr hlimit), htake, hdrop, if_neg hlength.not_lt]

theorem scanBody_part {limit words : Nat} {part : Bytes} (hlength : part.length < words * 4)
    (hlimit : words * 4 ≤ limit) : scanBody limit words part = .unfinished := by
  have htake : part.take (words * 4) = part := List.take_of_length_le hlength.le
  simp only [scanBody, if_neg (Nat.not_lt.mpr hlimit), htake, if_pos hlength]

/-! ## 3. Reading -/

/-- A frame that can be written, and read by a reader with a limit. -/
structure Fits (limit : Nat) (frame : Bytes) : Prop where
  whole : frame.length % 4 = 0
  counted : frame.length ≤ 4 * (2 ^ 24 - 1)
  limited : frame.length ≤ limit
  notCode : frame.length ≠ 4

/-- All that the writer asks for. -/
theorem Fits.sendable {limit : Nat} {frame : Bytes} (h : Fits limit frame) :
    frame.length % 4 = 0 ∧ frame.length ≤ 4 * (2 ^ 24 - 1) :=
  ⟨h.whole, h.counted⟩

/-- What is made of the start of a stream that will not grow. -/
def Scan.answer : Scan → Except Error (Option Bytes) × Bytes
  | .nothing => (.ok none, [])
  | .unfinished => (.error .connectionClosed, [])
  | .frame content rest => (.ok (some content), rest)
  | .refused error rest => (.error (.transport error), rest)

theorem readFrame_eq (limit : Nat) (stream : Bytes) :
    readFrame limit stream = (scanFrame limit stream).answer := by
  rw [readFrame]
  cases scanFrame limit stream <;> rfl

/-- **A frame that has been written is read back**, and the stream behind it is left. -/
theorem readFrame_written {limit : Nat} {frame : Bytes} (h : Fits limit frame) (rest : Bytes) :
    readFrame limit (written frame ++ rest) = (.ok (some frame), rest) := by
  obtain ⟨hwhole, hcounted, hlimited, hcode⟩ := h
  have hlength : frame.length = frame.length / 4 * 4 := by omega
  rw [readFrame_eq, written, List.append_assoc, scanFrame_headerOf (by omega),
    scanBody_whole hlength (by omega), if_neg (by omega)]
  rfl

/-- **Of a part of a frame only the end of the stream is seen.** -/
theorem readFrame_part {limit : Nat} {frame : Bytes} (h : Fits limit frame) {k : Nat}
    (hk : k < (written frame).length) :
    readFrame limit ((written frame).take k) =
      (if k = 0 then .ok none else .error .connectionClosed, []) := by
  obtain ⟨hwhole, hcounted, hlimited, hcode⟩ := h
  rw [written, List.length_append] at hk
  rw [readFrame_eq, written, List.take_append]
  by_cases hheader : k < (headerOf (frame.length / 4)).length
  · have hnone : k - (headerOf (frame.length / 4)).length = 0 := by omega
    rw [hnone, List.take_zero, List.append_nil, scanFrame_take_headerOf hheader]
    split <;> rfl
  · have hbegun : k ≠ 0 := by
      have := length_headerOf_pos (frame.length / 4)
      omega
    have hpart : (frame.take (k - (headerOf (frame.length / 4)).length)).length <
        frame.length / 4 * 4 := by
      rw [List.length_take]
      omega
    rw [List.take_of_length_le (by omega), scanFrame_headerOf (by omega),
      scanBody_part hpart (by omega), if_neg hbegun]
    rfl

/-- A word in place of a frame is an error code, unless it is longer than the reader accepts. -/
theorem readFrame_code {code : Bytes} (h : code.length = 4) (limit : Nat) (rest : Bytes) :
    (readFrame limit (written code ++ rest)).1 =
      .error (.transport (if 4 ≤ limit then .serverCode (UInt32.ofNat (Bytes.ofLE code)).toInt32
        else .exceedsLimit 4 limit)) := by
  rw [readFrame_eq, written, List.append_assoc, h, scanFrame_headerOf (by decide)]
  by_cases hlimit : 4 ≤ limit
  · rw [scanBody_whole h hlimit, if_pos rfl, if_pos hlimit]
    rfl
  · rw [if_neg hlimit, scanBody]
    simp only [if_pos (Nat.not_le.mp hlimit)]
    rfl

end Mtproto.Transport
