import Mathlib.Tactic.Common
import Mtproto.Proofs.Blob

/-!
# Integers of a fixed width, from both sides

`encodeUint` writes a number in 3, 4, 8 or 16 bytes, least significant first, and `decodeUint` reads
it.  A number fits a width or it does not: if it does, it is written in as many bytes as the width
has, and these bytes are the only ones of that length that are read as the number
(`encodeUint_eq_ok_iff`).  If it does not, the error names the number and the width.

`encodeUint` compares a number with a power of two.  A machine shifts it to the right instead, which
it can do by less than the size of its words only, and cuts what it needs out of all sixteen bytes.
`encodeWide` and `decodeWide` are written in that way, with operations that ask for a proof that
they have a result, and they are no different (`encodeWide_eq`, `decodeWide_eq`).

`uints_written_and_read` is all of this, for the four widths.
-/

namespace Mtproto.Wire

/-! ## 1. Writing and reading -/

theorem eight_mul_width {bits : Nat} (h : bits ∈ widths) : 8 * (bits / 8) = bits := by
  have hall : ∀ bits ∈ widths, 8 * (bits / 8) = bits := by decide
  exact hall bits h

theorem width_le {bits : Nat} (h : bits ∈ widths) : bits / 8 ≤ 16 := by
  have hall : ∀ bits ∈ widths, bits / 8 ≤ 16 := by decide
  exact hall bits h

/-- A width is a number of whole bytes, so its bound is a power of 256. -/
theorem two_pow_width {bits : Nat} (h : bits ∈ widths) : 2 ^ bits = 256 ^ (bits / 8) := by
  rw [Bytes.pow_256_eq, eight_mul_width h]

theorem encodeUint_of_lt {v bits : Nat} (hbits : bits ∈ widths) (h : v < 2 ^ bits) :
    encodeUint v bits = .ok (Bytes.le (bits / 8) v) := by
  rw [encodeUint, if_neg (not_not.mpr hbits), Nat.one_shiftLeft, if_neg (Nat.not_le.mpr h)]

/-- A number that is too large is refused, and the error names it and the width. -/
theorem encodeUint_of_le {v bits : Nat} (hbits : bits ∈ widths) (h : 2 ^ bits ≤ v) :
    encodeUint v bits = .error (.overflow v bits) := by
  rw [encodeUint, if_neg (not_not.mpr hbits), Nat.one_shiftLeft, if_pos h]

theorem decodeUint_of_le {bs : Bytes} (h : bs.length ≤ 16) : decodeUint bs = .ok (Bytes.ofLE bs) :=
  if_neg (Nat.not_lt.mpr h)

theorem decodeUint_of_lt {bs : Bytes} (h : 16 < bs.length) :
    decodeUint bs = .error (.overflow (2 ^ 128 - 1) 128) := by
  rw [decodeUint, if_pos h, Nat.one_shiftLeft]

theorem exists_encodeUint_iff {v bits : Nat} (hbits : bits ∈ widths) :
    (∃ bs, encodeUint v bits = .ok bs) ↔ v < 2 ^ bits := by
  constructor
  · rintro ⟨bs, h⟩
    by_contra hle
    rw [encodeUint_of_le hbits (Nat.not_lt.mp hle)] at h
    cases h
  · intro h
    exact ⟨_, encodeUint_of_lt hbits h⟩

/-- **A number is written as the bytes that are read as it**, among those of its width. -/
theorem encodeUint_eq_ok_iff {v bits : Nat} (hbits : bits ∈ widths) {bs : Bytes} :
    encodeUint v bits = .ok bs ↔ bs.length = bits / 8 ∧ decodeUint bs = .ok v := by
  constructor
  · intro h
    have hlt : v < 2 ^ bits := (exists_encodeUint_iff hbits).mp ⟨bs, h⟩
    rw [encodeUint_of_lt hbits hlt] at h
    obtain rfl := Except.ok.inj h
    have hlength := Bytes.length_le (bits / 8) v
    refine ⟨hlength, ?_⟩
    rw [two_pow_width hbits] at hlt
    rw [decodeUint_of_le (hlength.trans_le (width_le hbits)), Bytes.ofLE_le_of_lt hlt]
  · rintro ⟨hlength, h⟩
    rw [decodeUint_of_le (hlength.trans_le (width_le hbits))] at h
    obtain rfl := Except.ok.inj h
    have hlt := Bytes.ofLE_lt bs
    rw [hlength, ← two_pow_width hbits] at hlt
    rw [encodeUint_of_lt hbits hlt, ← hlength, Bytes.le_ofLE]

/-- Up to sixteen bytes are read as a number, more are refused. -/
theorem exists_decodeUint_error_iff {bs : Bytes} :
    (∃ e, decodeUint bs = .error e) ↔ 16 < bs.length := by
  constructor
  · rintro ⟨e, h⟩
    by_contra hle
    rw [decodeUint_of_le (Nat.not_lt.mp hle)] at h
    cases h
  · intro h
    exact ⟨_, decodeUint_of_lt h⟩

/-- Zero bytes behind a number are not seen, as long as there is room for them. -/
theorem decodeUint_append_zeros {bs : Bytes} {k : Nat} (h : bs.length + k ≤ 16) :
    decodeUint (bs ++ List.replicate k 0) = decodeUint bs := by
  rw [decodeUint_of_le (by simpa using h), decodeUint_of_le (Nat.le_of_add_right_le h),
    Bytes.ofLE_append_zeros]

/-! ## 2. Three bytes -/

/-- The encoding in three bytes, which blobs and frames have in their headers, is this one. -/
theorem encodeUint_24 (v : UInt32) : encodeUint v.toNat 24 = (encodeUint24 v).map Octets.bytes := by
  have hbits : 24 ∈ widths := by decide
  have h24 := encodeUint24_ofNat v.toNat_lt
  rw [UInt32.ofNat_toNat] at h24
  rw [h24]
  rcases Nat.lt_or_ge v.toNat (2 ^ 24) with h | h
  · rw [encodeUint_of_lt hbits h, if_pos h]
    rfl
  · rw [encodeUint_of_le hbits h, if_neg (Nat.not_lt.mpr h)]
    rfl

theorem decodeUint_24 (bs : Octets 3) : decodeUint bs.bytes = .ok (decodeUint24 bs).toNat := by
  have hlt := Bytes.ofLE_lt bs.bytes
  rw [bs.length_bytes] at hlt
  have hword : (decodeUint24 bs).toNat = Bytes.ofLE bs.bytes :=
    UInt32.toNat_ofNat_of_lt' (lt_trans hlt (by decide))
  rw [decodeUint_of_le (bs.length_bytes.trans_le (by decide)), hword]

/-! ## 3. Numbers of 128 bits -/

/-- A number shifted to the right.  There is no shift by all of its bits. -/
def shiftRight (value : BitVec 128) (k : Fin 128) : BitVec 128 :=
  value >>> k.val

/-- Whether there is anything above the lowest `bits` bits. -/
def exceeds (value : BitVec 128) (bits : Nat) : Bool :=
  if h : bits < 128 then shiftRight value ⟨bits, h⟩ != 0 else false

/-- The bytes of a number in a field of `bits` bits, out of its sixteen. -/
def encodeWide (value : BitVec 128) (bits : Nat) : Except DecodeError Bytes :=
  if h : bits ∈ widths then
    if exceeds value bits then .error (.overflow value.toNat bits)
    else
      have hpart : 0 + bits / 8 ≤ 16 := (Nat.zero_add _).trans_le (width_le h)
      .ok ((Octets.le 16 value.toNat).slice 0 (bits / 8) hpart).bytes
  else .error (.invalidValue (.width bits))

/-- Sixteen bytes, the given ones in front and zero bytes behind them. -/
def fill (bs : Bytes) (h : bs.length ≤ 16) : Octets 16 :=
  ⟨bs ++ (Octets.zero 16).bytes.drop bs.length, by simp; omega⟩

/-- The number that is written in up to 16 bytes. -/
def decodeWide (bs : Bytes) : Except DecodeError (BitVec 128) :=
  if h : bs.length ≤ 16 then .ok (BitVec.ofNat 128 (Bytes.ofLE (fill bs h).bytes))
  else .error (.overflow (BitVec.allOnes 128).toNat 128)

/-- The shift by a whole word is guarded, so the check is a comparison at every width. -/
theorem exceeds_iff (value : BitVec 128) {bits : Nat} (h : bits ≤ 128) :
    exceeds value bits = true ↔ 2 ^ bits ≤ value.toNat := by
  unfold exceeds
  split
  · rename_i hlt
    have hshift : (shiftRight value ⟨bits, hlt⟩).toNat = value.toNat / 2 ^ bits := by
      rw [shiftRight, BitVec.toNat_ushiftRight, Nat.shiftRight_eq_div_pow]
    have hnone : shiftRight value ⟨bits, hlt⟩ = 0 ↔ value.toNat < 2 ^ bits := by
      rw [← BitVec.toNat_inj, hshift]
      exact Nat.div_eq_zero_iff_lt (Nat.two_pow_pos bits)
    rw [bne_iff_ne, ne_eq, hnone, Nat.not_lt]
  · rename_i hge
    have hall : bits = 128 := by omega
    simp only [Bool.false_eq_true, false_iff, Nat.not_le, hall]
    exact value.isLt

/-- Writing a word of 128 bits by a slice of its sixteen bytes is writing its number. -/
theorem encodeWide_eq (value : BitVec 128) (bits : Nat) :
    encodeWide value bits = encodeUint value.toNat bits := by
  unfold encodeWide
  split
  · rename_i hbits
    have hle : bits ≤ 128 := by
      have := eight_mul_width hbits
      have := width_le hbits
      omega
    by_cases hfits : value.toNat < 2 ^ bits
    · have hshort : ¬ exceeds value bits = true := by
        rw [exceeds_iff value hle]
        exact Nat.not_le.mpr hfits
      rw [if_neg hshort, encodeUint_of_lt hbits hfits]
      simp [Octets.slice, Octets.le, Bytes.take_le (width_le hbits)]
    · have hlong := Nat.not_lt.mp hfits
      rw [if_pos ((exceeds_iff value hle).mpr hlong), encodeUint_of_le hbits hlong]
  · rename_i hbits
    rw [encodeUint, if_pos hbits]

/-- Reading into a zeroed word of 128 bits is reading the number. -/
theorem decodeWide_eq (bs : Bytes) : (decodeWide bs).map BitVec.toNat = decodeUint bs := by
  unfold decodeWide
  split
  · rename_i h
    have hfill : Bytes.ofLE (fill bs h).bytes = Bytes.ofLE bs := by
      change Bytes.ofLE (bs ++ (List.replicate 16 0).drop bs.length) = _
      rw [List.drop_replicate, Bytes.ofLE_append_zeros]
    have hlt : Bytes.ofLE bs < 2 ^ 128 :=
      lt_of_lt_of_le (Bytes.ofLE_lt bs) (Nat.pow_le_pow_right (by decide) h)
    rw [decodeUint_of_le h, hfill]
    exact congrArg Except.ok (Nat.mod_eq_of_lt hlt)
  · rename_i h
    rw [decodeUint_of_lt (Nat.not_le.mp h)]
    rfl

/-! ## 4. Both ways -/

/-- **`encodeUint` and `decodeUint` at the four widths.**

* At each of the four widths a number is written if and only if it is below the power of two; it
  then takes as many bytes as the width has, and these are read as the number.  Whatever string has
  that many bytes is read as a number, and the number is written as the string.
* For numbers of 128 bits this comes to the same as shifts by less than 128 and slices of sixteen
  bytes.
* Three bytes are the width of 24 bits, with the same errors.
* Strings of more than sixteen bytes are the ones that are not read.  Zero bytes behind a string
  that is read, up to sixteen in all, make no difference. -/
theorem uints_written_and_read :
    (∀ bits ∈ widths,
      (∀ v, (∃ bs, encodeUint v bits = .ok bs) ↔ v < 2 ^ bits) ∧
      (∀ v bs, encodeUint v bits = .ok bs → bs.length = bits / 8 ∧ decodeUint bs = .ok v) ∧
      (∀ bs, bs.length = bits / 8 → ∃ v, decodeUint bs = .ok v ∧ encodeUint v bits = .ok bs)) ∧
    (∀ (v : BitVec 128) (bits : Nat), encodeWide v bits = encodeUint v.toNat bits) ∧
    (∀ bs, (decodeWide bs).map BitVec.toNat = decodeUint bs) ∧
    (∀ v : UInt32, encodeUint v.toNat 24 = (encodeUint24 v).map Octets.bytes) ∧
    (∀ bs : Octets 3, decodeUint bs.bytes = .ok (decodeUint24 bs).toNat) ∧
    (∀ bs, (∃ e, decodeUint bs = .error e) ↔ 16 < bs.length) ∧
    (∀ bs k, bs.length + k ≤ 16 → decodeUint (bs ++ List.replicate k 0) = decodeUint bs) := by
  refine ⟨?widths, encodeWide_eq, decodeWide_eq, encodeUint_24, decodeUint_24,
    fun _ => exists_decodeUint_error_iff, fun _ _ => decodeUint_append_zeros⟩
  case widths =>
    intro bits hbits
    refine ⟨fun v => exists_encodeUint_iff hbits, ?_, ?_⟩
    · intro v bs h
      exact (encodeUint_eq_ok_iff hbits).mp h
    · intro bs hlength
      have hread := decodeUint_of_le (hlength.trans_le (width_le hbits))
      exact ⟨_, hread, (encodeUint_eq_ok_iff hbits).mpr ⟨hlength, hread⟩⟩

/-- The largest number of all, and a short one with zero bytes behind it. -/
theorem uints_written_and_read_around :
    (128 ∈ widths ∧ 2 ^ 128 - 1 < 2 ^ 128 ∧ ∃ bs, encodeUint (2 ^ 128 - 1) 128 = .ok bs ∧
      bs.length = 16 ∧ decodeUint bs = .ok (2 ^ 128 - 1)) ∧
    [(0xEF : UInt8), 0xCD, 0xAB].length = 24 / 8 ∧
    (∃ v, decodeUint [0xEF, 0xCD, 0xAB] = .ok v ∧ encodeUint v 24 = .ok [0xEF, 0xCD, 0xAB]) ∧
    [(0xEF : UInt8), 0xCD, 0xAB].length + 13 ≤ 16 ∧
    decodeUint ([0xEF, 0xCD, 0xAB] ++ List.replicate 13 0) = decodeUint [0xEF, 0xCD, 0xAB] := by
  obtain ⟨hwidths, -, -, -, -, -, hzeros⟩ := uints_written_and_read
  have h128 : 128 ∈ widths := by decide
  have hlt : 2 ^ 128 - 1 < 2 ^ 128 := by decide
  obtain ⟨hwritten, hback, -⟩ := hwidths 128 h128
  obtain ⟨bs, hbs⟩ := (hwritten _).mpr hlt
  obtain ⟨hlength, hread⟩ := hback _ _ hbs
  exact ⟨⟨h128, hlt, bs, hbs, hlength, hread⟩, rfl,
    (hwidths 24 (by decide)).2.2 [0xEF, 0xCD, 0xAB] rfl, by decide, hzeros _ 13 (by decide)⟩

end Mtproto.Wire
