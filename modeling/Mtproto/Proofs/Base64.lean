import Mathlib.Tactic.Common
import Mtproto.Text.Base64

/-!
# Base 64, written and read

`Base64.encode` and `Base64.decode` are inverse to each other, and decoding is strict: it accepts
what `encode` writes and nothing else.  The text form of a key depends on both, since a second
spelling of the same bytes would be a second text for one key.

* `value?_digit`, `eq_digit_of_value?`: digits and their characters are one to one.
* `decodeFrom_encode`: what has been written is read back.
* `decode_eq_some_iff`: nothing else is read.  A group of digits is a number, and its bytes are the
  number again in base 256; a last group with bits that are not zero would be another spelling of
  its bytes, and is refused.
-/

namespace Mtproto.Text.Base64

/-! ## 1. Digits -/

theorem value?_digit {n : Nat} (h : n < 64) : value? (digit n) = some n := by
  have hall : ∀ n < 64, value? (digit n) = some n := by decide
  exact hall n h

/-- Only the digits have a value. -/
theorem eq_digit_of_value? {c : Char} {n : Nat} (h : value? c = some n) : n < 64 ∧ digit n = c := by
  have hback : ∀ m, m = c.toNat → Char.ofNat m = c := by
    rintro m rfl
    exact c.ofNat_toNat
  unfold value? at h
  dsimp only at h
  split at h
  · obtain rfl := Option.some.inj h
    refine ⟨by omega, ?_⟩
    rw [digit, if_pos (by omega)]
    exact hback _ (by omega)
  split at h
  · obtain rfl := Option.some.inj h
    refine ⟨by omega, ?_⟩
    rw [digit, if_neg (by omega), if_pos (by omega)]
    exact hback _ (by omega)
  split at h
  · obtain rfl := Option.some.inj h
    refine ⟨by omega, ?_⟩
    rw [digit, if_neg (by omega), if_neg (by omega), if_pos (by omega)]
    exact hback _ (by omega)
  split at h
  · rename_i hc
    obtain rfl := Option.some.inj h
    exact ⟨by decide, hc.symm⟩
  split at h
  · rename_i hc
    obtain rfl := Option.some.inj h
    exact ⟨by decide, hc.symm⟩
  · cases h

theorem digit_ne_equals {n : Nat} (h : n < 64) : digit n ≠ '=' := by
  have hall : ∀ n < 64, digit n ≠ '=' := by decide
  exact hall n h

/-! ## 2. Groups -/

/-- Four digits are a group. -/
theorem decodeFrom_group {a b c d : Nat} (ha : a < 64) (hb : b < 64) (hc : c < 64) (hd : d < 64)
    (cs : List Char) (acc : Bytes) :
    decodeFrom (digit a :: digit b :: digit c :: digit d :: cs) acc =
      let n := ((a * 64 + b) * 64 + c) * 64 + d
      decodeFrom cs
        (UInt8.ofNat n :: UInt8.ofNat (n / 256) :: UInt8.ofNat (n / 65536) :: acc) := by
  have hend := digit_ne_equals hd
  rw [decodeFrom]
  · simp [value?_digit, *]
  · exact fun _ h _ => hend h
  · exact fun h _ => hend h

/-- Three digits are a last group if two bits are zero. -/
theorem decodeFrom_three {a b c : Nat} (ha : a < 64) (hb : b < 64) (hc : c < 64) (hzero : c % 4 = 0)
    (acc : Bytes) :
    decodeFrom [digit a, digit b, digit c, '='] acc =
      let n := (a * 64 + b) * 64 + c
      some (UInt8.ofNat (n / 4) :: UInt8.ofNat (n / 1024) :: acc).reverse := by
  have hend := digit_ne_equals hc
  have hn : ((a * 64 + b) * 64 + c) % 4 = 0 := by omega
  rw [decodeFrom]
  · simp [value?_digit, *]
  · exact fun h => hend h

/-- Two digits are one if four bits are. -/
theorem decodeFrom_two {a b : Nat} (ha : a < 64) (hb : b < 64) (hzero : b % 16 = 0)
    (acc : Bytes) :
    decodeFrom [digit a, digit b, '=', '='] acc =
      some (UInt8.ofNat ((a * 64 + b) / 16) :: acc).reverse := by
  have hn : (a * 64 + b) % 16 = 0 := by omega
  rw [decodeFrom]
  simp [value?_digit, *]

theorem ofNat_eq {n : Nat} {b : UInt8} (h : n % 256 = b.toNat) : UInt8.ofNat n = b := by
  rw [← UInt8.toNat_inj, UInt8.toNat_ofNat']
  exact h

/-! ## 3. Strings -/

/-- **What has been written is read back.** -/
theorem decodeFrom_encode (bs acc : Bytes) :
    decodeFrom (encode bs) acc = some (acc.reverse ++ bs) := by
  induction bs using encode.induct generalizing acc with
  | case1 => simp [encode, decodeFrom]
  | case2 a =>
    have ha := a.toNat_lt
    rw [encode, decodeFrom_two (by omega) (by omega) (by omega), ofNat_eq (b := a)]
    · simp
    · omega
  | case3 a b =>
    have ha := a.toNat_lt
    have hb := b.toNat_lt
    rw [encode, decodeFrom_three (by omega) (by omega) (by omega) (by omega)]
    dsimp only
    rw [ofNat_eq (b := b), ofNat_eq (b := a)]
    · simp
    · omega
    · omega
  | case4 a b c bs ih =>
    have ha := a.toNat_lt
    have hb := b.toNat_lt
    have hc := c.toNat_lt
    rw [encode, decodeFrom_group (by omega) (by omega) (by omega) (by omega)]
    dsimp only
    rw [ofNat_eq (b := c), ofNat_eq (b := b), ofNat_eq (b := a), ih]
    · simp
    · omega
    · omega
    · omega

/-- What has been read is what is written. -/
theorem eq_encode_of_decodeFrom {cs : List Char} {acc bs : Bytes}
    (h : decodeFrom cs acc = some bs) : ∃ tail, bs = acc.reverse ++ tail ∧ cs = encode tail := by
  fun_induction decodeFrom cs acc with
  | case1 acc => exact ⟨[], by simpa using h.symm, rfl⟩
  | case2 a b acc =>
    simp only [Option.bind_eq_bind, Option.bind_eq_some_iff] at h
    obtain ⟨x, hx, y, hy, h⟩ := h
    obtain ⟨hx, rfl⟩ := eq_digit_of_value? hx
    obtain ⟨hy, rfl⟩ := eq_digit_of_value? hy
    split at h
    · cases h
    · have hfirst : (x * 64 + y) / 16 % 2 ^ 8 / 4 = x := by omega
      have hsecond : (x * 64 + y) / 16 % 2 ^ 8 % 4 * 16 = y := by omega
      refine ⟨[UInt8.ofNat ((x * 64 + y) / 16)], ?_, ?_⟩
      · rw [← List.reverse_cons]
        exact (Option.some.inj h).symm
      · simp only [encode, UInt8.toNat_ofNat', hfirst, hsecond]
  | case3 a b c acc _ =>
    simp only [Option.bind_eq_bind, Option.bind_eq_some_iff] at h
    obtain ⟨x, hx, y, hy, z, hz, h⟩ := h
    obtain ⟨hx, rfl⟩ := eq_digit_of_value? hx
    obtain ⟨hy, rfl⟩ := eq_digit_of_value? hy
    obtain ⟨hz, rfl⟩ := eq_digit_of_value? hz
    split at h
    · cases h
    · generalize hn : (x * 64 + y) * 64 + z = n at h
      have hnumber : n / 1024 % 2 ^ 8 * 256 + n / 4 % 2 ^ 8 = n / 4 := by omega
      refine ⟨[UInt8.ofNat (n / 1024), UInt8.ofNat (n / 4)], ?_, ?_⟩
      · have hbytes := (Option.some.inj h).symm
        rwa [List.reverse_cons, List.reverse_cons, List.append_assoc] at hbytes
      · have hfirst : n / 4 / 1024 = x := by omega
        have hsecond : n / 4 / 16 % 64 = y := by omega
        have hthird : n / 4 % 16 * 4 = z := by omega
        simp only [encode, UInt8.toNat_ofNat', hnumber, hfirst, hsecond, hthird]
  | case4 a b c d cs acc _ _ ih =>
    simp only [Option.bind_eq_bind, Option.bind_eq_some_iff] at h
    obtain ⟨x, hx, y, hy, z, hz, w, hw, h⟩ := h
    obtain ⟨hx, rfl⟩ := eq_digit_of_value? hx
    obtain ⟨hy, rfl⟩ := eq_digit_of_value? hy
    obtain ⟨hz, rfl⟩ := eq_digit_of_value? hz
    obtain ⟨hw, rfl⟩ := eq_digit_of_value? hw
    obtain ⟨tail, hbytes, rfl⟩ := ih x y z w h
    generalize hn : ((x * 64 + y) * 64 + z) * 64 + w = n at hbytes
    have hnumber : (n / 65536 % 2 ^ 8 * 256 + n / 256 % 2 ^ 8) * 256 + n % 2 ^ 8 = n := by omega
    refine ⟨UInt8.ofNat (n / 65536) :: UInt8.ofNat (n / 256) :: UInt8.ofNat n :: tail, ?_, ?_⟩
    · simpa using hbytes
    · have hfirst : n / 262144 = x := by omega
      have hsecond : n / 4096 % 64 = y := by omega
      have hthird : n / 64 % 64 = z := by omega
      have hfourth : n % 64 = w := by omega
      simp only [encode, UInt8.toNat_ofNat', hnumber, hfirst, hsecond, hthird, hfourth]
  | case5 => cases h

/-- **Reading accepts exactly what writing produces.** -/
theorem decode_eq_some_iff {cs : List Char} {bs : Bytes} :
    decode cs = some bs ↔ cs = encode bs := by
  constructor
  · intro h
    obtain ⟨tail, rfl, hcs⟩ := eq_encode_of_decodeFrom h
    exact hcs
  · rintro rfl
    exact decodeFrom_encode bs []

/-- What is written is digits, and the character that fills up. -/
theorem of_mem_encode {bs : Bytes} {c : Char} (h : c ∈ encode bs) :
    c = '=' ∨ ∃ n < 64, c = digit n := by
  induction bs using encode.induct with
  | case1 => cases h
  | case2 a =>
    have ha := a.toNat_lt
    simp only [encode, List.mem_cons, List.not_mem_nil, or_false] at h
    grind
  | case3 a b =>
    have ha := a.toNat_lt
    have hb := b.toNat_lt
    simp only [encode, List.mem_cons, List.not_mem_nil, or_false] at h
    grind
  | case4 a b c bs ih =>
    have ha := a.toNat_lt
    have hb := b.toNat_lt
    have hc := c.toNat_lt
    simp only [encode, List.mem_cons] at h
    grind

end Mtproto.Text.Base64
