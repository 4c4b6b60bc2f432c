import Mathlib.Algebra.Order.Ring.Nat
import Mathlib.Data.List.Induction
import Mathlib.Tactic.Ring
import Mtproto.Bytes

/-!
# Laws of byte strings

Writing a number as bytes and reading it back, in both orders.  `le` and `ofLE` are the order of
words on the wire, `magnitude`, `ofNat` and `ofBE` that of big integers.

* Least significant first: `ofLE_le` and `le_ofLE` make `le` and `ofLE` inverse to each other at
  every width.
* Most significant first: `ofBE_ofNat` reads back what `ofNat` writes, and `ofNatPadded_ofBE` says
  that a string which is not longer than the width comes back with zero bytes in front.

Then two facts about strings of a fixed length, `Octets n`.  Exclusive or with the same string twice
is no change (`Octets.xor_xor_cancel`), which is what makes a chain of blocks undo itself.  And the
padding up to a multiple is the only one that is shorter than the multiple (`eq_paddingFor`), so a
length that is announced inside an envelope leaves no choice for its padding.
-/

namespace Mtproto

namespace Bytes

/-! ## 1. Least significant first -/

theorem pow_256_eq (k : Nat) : 256 ^ k = 2 ^ (8 * k) :=
  (Nat.pow_mul 2 8 k).symm

/-- As many bytes as there are bound the number. -/
theorem ofLE_lt (bs : Bytes) : ofLE bs < 256 ^ bs.length := by
  induction bs with
  | nil => simp [ofLE]
  | cons b bs ih =>
    have hb : b.toNat < 256 := b.toNat_lt
    rw [ofLE, List.length_cons, Nat.pow_succ']
    omega

/-- Reading back what has been written at `k` bytes gives what fits into `k` bytes. -/
theorem ofLE_le (k n : Nat) : ofLE (le k n) = n % 256 ^ k := by
  induction k generalizing n with
  | zero => simp [le, ofLE, Nat.mod_one]
  | succ k ih =>
    rw [le, ofLE, ih, Nat.pow_succ', Nat.mod_mul, UInt8.toNat_ofNat']

theorem ofLE_le_of_lt {k n : Nat} (h : n < 256 ^ k) : ofLE (le k n) = n := by
  rw [ofLE_le, Nat.mod_eq_of_lt h]

/-- Writing what has been read, at the same width, gives the bytes back. -/
theorem le_ofLE (bs : Bytes) : le bs.length (ofLE bs) = bs := by
  induction bs with
  | nil => rfl
  | cons b bs ih =>
    have hb : b.toNat < 256 := b.toNat_lt
    have hlow : UInt8.ofNat (ofLE (b :: bs)) = b := by
      rw [ofLE, ← UInt8.toNat_inj, UInt8.toNat_ofNat']
      omega
    have hhigh : ofLE (b :: bs) / 256 = ofLE bs := by
      rw [ofLE]
      omega
    rw [List.length_cons, le, hlow, hhigh, ih]

/-- Strings of one length can be told apart by their numbers. -/
theorem ofLE_injective {a b : Bytes} (hl : a.length = b.length) (h : ofLE a = ofLE b) :
    a = b := by
  rw [← le_ofLE a, ← le_ofLE b, hl, h]

/-- A word of four bytes has the number of its bytes. -/
theorem toNat_ofLE_four {bs : Bytes} (h : bs.length = 4) :
    (UInt32.ofNat (ofLE bs)).toNat = ofLE bs := by
  refine UInt32.toNat_ofNat_of_lt' ?_
  have := ofLE_lt bs
  rwa [h] at this

/-- Eight bytes are a word, and nothing of their number is cut off. -/
theorem toNat_ofLE_eight {bs : Bytes} (h : bs.length = 8) :
    (UInt64.ofNat (ofLE bs)).toNat = ofLE bs := by
  refine UInt64.toNat_ofNat_of_lt' ?_
  have := ofLE_lt bs
  rwa [h] at this

theorem le_ofLE_four {bs : Bytes} (h : bs.length = 4) :
    le 4 (UInt32.ofNat (ofLE bs)).toNat = bs := by
  rw [toNat_ofLE_four h]
  conv_lhs => rw [← h]
  exact le_ofLE bs

theorem le_ofLE_eight {bs : Bytes} (h : bs.length = 8) :
    le 8 (UInt64.ofNat (ofLE bs)).toNat = bs := by
  rw [toNat_ofLE_eight h]
  conv_lhs => rw [← h]
  exact le_ofLE bs

/-! ## 2. Most significant first -/

/-- The bytes in front count for more, by as many bytes as come behind them. -/
theorem ofBE_append (a b : Bytes) : ofBE (a ++ b) = ofBE a * 256 ^ b.length + ofBE b := by
  induction b using List.reverseRecOn with
  | nil => simp [ofBE]
  | append_singleton b c ih =>
    have snoc : ∀ bs : Bytes, ofBE (bs ++ [c]) = ofBE bs * 256 + c.toNat := by simp [ofBE]
    rw [← List.append_assoc, snoc, snoc, ih, List.length_append, List.length_singleton,
      Nat.pow_succ]
    ring

theorem ofBE_cons (c : UInt8) (bs : Bytes) :
    ofBE (c :: bs) = c.toNat * 256 ^ bs.length + ofBE bs := by
  have h := ofBE_append [c] bs
  simpa [ofBE] using h

/-- The two orders are mirror images. -/
theorem ofBE_eq_ofLE_reverse (bs : Bytes) : ofBE bs = ofLE bs.reverse := by
  induction bs using List.reverseRecOn with
  | nil => rfl
  | append_singleton bs c ih =>
    rw [ofBE_append, List.reverse_append, List.reverse_singleton, List.singleton_append, ofLE, ih]
    simp [ofBE]
    ring

theorem ofBE_lt (bs : Bytes) : ofBE bs < 256 ^ bs.length := by
  simpa [ofBE_eq_ofLE_reverse] using ofLE_lt bs.reverse

theorem ofBE_injective {a b : Bytes} (hl : a.length = b.length) (h : ofBE a = ofBE b) :
    a = b := by
  rw [ofBE_eq_ofLE_reverse, ofBE_eq_ofLE_reverse] at h
  exact List.reverse_inj.mp (ofLE_injective (by simpa using hl) h)

theorem ofLE_zeros (k : Nat) : ofLE (List.replicate k 0) = 0 := by
  induction k with
  | zero => rfl
  | succ k ih =>
    rw [List.replicate_succ, ofLE, ih]
    rfl

/-- Zero bytes behind a string are not seen. -/
theorem ofLE_append_zeros (bs : Bytes) (k : Nat) : ofLE (bs ++ List.replicate k 0) = ofLE bs := by
  induction bs with
  | nil => exact ofLE_zeros k
  | cons b bs ih => rw [List.cons_append, ofLE, ih, ofLE]

/-- The first bytes do not depend on how many are written. -/
theorem take_le {k m : Nat} (h : k ≤ m) (n : Nat) : (le m n).take k = le k n := by
  induction k generalizing m n with
  | zero => rfl
  | succ k ih =>
    cases m with
    | zero => exact absurd h (Nat.not_succ_le_zero k)
    | succ m => rw [le, List.take_succ_cons, ih (Nat.le_of_succ_le_succ h), le]

theorem ofBE_zeros (k : Nat) : ofBE (List.replicate k 0) = 0 := by
  induction k with
  | zero => rfl
  | succ k ih => simp [List.replicate_succ, ofBE_cons, ih]

/-- Leading zeros do not count. -/
theorem ofBE_zeros_append (k : Nat) (bs : Bytes) :
    ofBE (List.replicate k 0 ++ bs) = ofBE bs := by
  rw [ofBE_append, ofBE_zeros, Nat.zero_mul, Nat.zero_add]

/-- The bytes in front of a tail count as many times as the tail has room for. -/
theorem ofBE_magnitudeAux (n : Nat) (tail : Bytes) :
    ofBE (magnitudeAux n tail) = n * 256 ^ tail.length + ofBE tail := by
  induction n using Nat.strongRecOn generalizing tail with
  | ind n ih =>
    rw [magnitudeAux]
    split
    · simp [*]
    · have hlow : (UInt8.ofNat n).toNat = n % 256 := UInt8.toNat_ofNat'
      rw [ih (n / 256) (by omega), ofBE_cons, hlow, List.length_cons, Nat.pow_succ']
      have hsplit : n / 256 * (256 * 256 ^ tail.length) + n % 256 * 256 ^ tail.length
          = (256 * (n / 256) + n % 256) * 256 ^ tail.length := by ring
      rw [← Nat.add_assoc, hsplit, Nat.div_add_mod]

/-- A number below `256 ^ k` puts at most `k` bytes in front of a tail. -/
theorem length_magnitudeAux {n k : Nat} (tail : Bytes) (h : n < 256 ^ k) :
    (magnitudeAux n tail).length ≤ k + tail.length := by
  induction k generalizing n tail with
  | zero =>
    have hn : n = 0 := by simpa using h
    simp [magnitudeAux, hn]
  | succ k ih =>
    rw [magnitudeAux]
    split
    · omega
    · have hdiv : n / 256 < 256 ^ k := by
        rw [Nat.pow_succ'] at h
        omega
      have := ih (UInt8.ofNat n :: tail) hdiv
      simp only [List.length_cons] at this
      omega

/-- The shortest form of a number is read back. -/
theorem ofBE_magnitude (n : Nat) : ofBE (magnitude n) = n := by
  rw [magnitude, ofBE_magnitudeAux]
  simp [ofBE]

theorem ofBE_ofNat (n : Nat) : ofBE (ofNat n) = n := by
  unfold ofNat
  split
  · simp [ofBE, *]
  · exact ofBE_magnitude n

/-- A number that is small enough has a short form; zero has one byte. -/
theorem length_ofNat_le {n k : Nat} (hk : 1 ≤ k) (h : n < 256 ^ k) : (ofNat n).length ≤ k := by
  unfold ofNat
  split
  · exact hk
  · exact length_magnitudeAux [] h

/-- What is put in front of a tail does not start with a zero byte. -/
theorem head?_magnitudeAux {n : Nat} (hn : n ≠ 0) (tail : Bytes) :
    (magnitudeAux n tail).head? ≠ some 0 := by
  induction n using Nat.strongRecOn generalizing tail with
  | ind n ih =>
    rw [magnitudeAux, if_neg hn]
    by_cases hlast : n / 256 = 0
    · have hlow : (UInt8.ofNat n).toNat = n := by
        rw [UInt8.toNat_ofNat']
        omega
      rw [hlast, magnitudeAux, if_pos rfl, List.head?_cons]
      intro hzero
      rw [Option.some.inj hzero] at hlow
      exact hn hlow.symm
    · exact ih (n / 256) (by omega) hlast _

/-- The bytes of a number other than zero do not start with a zero byte. -/
theorem head?_ofNat {n : Nat} (hn : n ≠ 0) : (ofNat n).head? ≠ some 0 := by
  rw [ofNat, if_neg hn]
  exact head?_magnitudeAux hn []

/-- Padding does not change a number. -/
theorem ofBE_ofNatPadded (n width : Nat) : ofBE (ofNatPadded n width) = n := by
  rw [ofNatPadded, ofBE_zeros_append, ofBE_ofNat]

/-- A number that fits is padded to the width exactly. -/
theorem length_ofNatPadded {n width : Nat} (hw : 1 ≤ width) (h : n < 256 ^ width) :
    (ofNatPadded n width).length = width := by
  have := length_ofNat_le hw h
  simp only [ofNatPadded, List.length_append, List.length_replicate]
  omega

/-- **Padding keeps short strings.**  A string that is not longer than the width comes back from
its number with zero bytes in front. -/
theorem ofNatPadded_ofBE {bs : Bytes} {width : Nat} (hw : 1 ≤ width) (h : bs.length ≤ width) :
    ofNatPadded (ofBE bs) width = List.replicate (width - bs.length) 0 ++ bs := by
  have hlt : ofBE bs < 256 ^ width :=
    lt_of_lt_of_le (ofBE_lt bs) (Nat.pow_le_pow_right (by decide) h)
  refine ofBE_injective ?_ ?_
  · rw [length_ofNatPadded hw hlt, List.length_append, List.length_replicate]
    omega
  · rw [ofBE_ofNatPadded, ofBE_zeros_append]

end Bytes

/-! ## 3. Strings of a fixed length -/

namespace Octets

variable {n : Nat}

theorem bytes_xor (a b : Octets n) : (a ^^^ b).bytes = Bytes.xor a.bytes b.bytes := rfl

/-- Exclusive or with the same string twice is no change. -/
theorem xor_xor_cancel (a b : Octets n) : a ^^^ b ^^^ b = a := by
  have cancel : ∀ x y : Bytes, x.length = y.length → Bytes.xor (Bytes.xor x y) y = x := by
    intro x
    induction x with
    | nil => intro y _; rfl
    | cons c x ih =>
      rintro (_ | ⟨d, y⟩) hl
      · cases hl
      · have htail := ih y (by simpa using hl)
        simp only [Bytes.xor, List.zipWith_cons_cons] at htail ⊢
        rw [htail, UInt8.xor_assoc, UInt8.xor_self, UInt8.xor_zero]
  refine Octets.ext ?_
  rw [bytes_xor, bytes_xor]
  exact cancel _ _ (by simp)

theorem ofBytes?_bytes (a : Octets n) : ofBytes? n a.bytes = some a := by
  simp [ofBytes?]

theorem bytes_of_ofBytes? {bs : Bytes} {a : Octets n} (h : ofBytes? n bs = some a) :
    a.bytes = bs := by
  unfold ofBytes? at h
  split at h <;> cases h
  rfl

theorem length_of_ofBytes? {bs : Bytes} {a : Octets n} (h : ofBytes? n bs = some a) :
    bs.length = n := by
  rw [← bytes_of_ofBytes? h, length_bytes]

theorem ofBytes?_of_length {bs : Bytes} (h : bs.length = n) : ofBytes? n bs = some ⟨bs, h⟩ :=
  dif_pos h

end Octets

/-! ## 4. Alignment -/

/-- Less than a whole unit is needed to fill up. -/
theorem paddingFor_lt {align : Nat} (len : Nat) (h : 0 < align) : paddingFor len align < align :=
  Nat.mod_lt _ h

/-- Padding leads to a multiple. -/
theorem add_paddingFor_mod (len : Nat) {align : Nat} (h : 0 < align) :
    (len + paddingFor len align) % align = 0 := by
  have hlt := Nat.mod_lt len h
  have hsum : len + (align - len % align) = align * (len / align + 1) := by
    have := Nat.div_add_mod len align
    rw [Nat.mul_succ]
    omega
  rw [paddingFor, Nat.add_mod, Nat.mod_mod, ← Nat.add_mod, hsum, Nat.mul_mod_right]

/-- The padding is the only way to reach a multiple with fewer bytes than the multiple. -/
theorem eq_paddingFor {len align p : Nat} (hp : p < align) (h : (len + p) % align = 0) :
    p = paddingFor len align := by
  have hpos : 0 < align := by omega
  have hlt := Nat.mod_lt len hpos
  rw [Nat.add_mod, Nat.mod_eq_of_lt hp] at h
  unfold paddingFor
  rcases Nat.eq_zero_or_pos (len % align) with hz | hz
  · rw [hz] at h ⊢
    rw [Nat.zero_add, Nat.mod_eq_of_lt hp] at h
    simp [h]
  · rw [Nat.mod_eq_of_lt (by omega)]
    rcases Nat.lt_or_ge (len % align + p) align with hs | hs
    · rw [Nat.mod_eq_of_lt hs] at h
      omega
    · rw [Nat.mod_eq_sub_mod hs, Nat.mod_eq_of_lt (by omega)] at h
      omega

end Mtproto
