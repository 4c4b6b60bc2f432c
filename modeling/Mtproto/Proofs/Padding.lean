import Mathlib.Tactic.Common
import Mtproto.Proofs.Bytes
import Mtproto.Proofs.PowMod
import Mtproto.Rsa.Key

/-!
# Numbers as blocks of bytes

`Bytes.ofNatPadded` writes a number most significant byte first and puts zero bytes in front up to a
width.  What it writes is always read as the number.  How it looks depends on whether the number
fits the width:

* if it does, there are as many bytes as the width says (`length_ofNatPadded`);
* if it does not, or if the width is zero, nothing is put in front (`ofNatPadded_of_not_fits`), and
  the bytes are minimal (`IsMinimal`).  Of the strings that are read as the number, the empty one
  apart, none is shorter (`IsMinimal.length_le`), and all others have a zero byte in front
  (`isMinimal_iff`).

The encryption to a key, `RsaKey.encrypt`, pads its remainder to 256 bytes.  A remainder by a
modulus of up to 2048 bits fits them, so a block that is encrypted has that length, however small
the remainder is (`exists_encrypt`).  `padding_exact` is all of this together.
-/

namespace Mtproto

namespace Bytes

/-! ## 1. Minimal strings -/

/-- The number is written without a zero byte in front, and zero as one zero byte. -/
structure IsMinimal (n : Nat) (bs : Bytes) : Prop where
  value : ofBE bs = n
  ne_nil : bs ≠ []
  eq_of_head : bs.head? = some 0 → bs = [0]

theorem ofNat_ne_nil (n : Nat) : ofNat n ≠ [] := by
  intro h
  have hvalue := ofBE_ofNat n
  rw [h] at hvalue
  obtain rfl : 0 = n := hvalue
  cases h

theorem isMinimal_ofNat (n : Nat) : IsMinimal n (ofNat n) where
  value := ofBE_ofNat n
  ne_nil := ofNat_ne_nil n
  eq_of_head := by
    intro h
    by_cases hn : n = 0
    · rw [ofNat, if_pos hn]
    · exact absurd h (head?_ofNat hn)

/-- A byte in front that is not zero counts. -/
theorem pow_le_ofBE_cons {c : UInt8} (hc : c ≠ 0) (bs : Bytes) :
    256 ^ bs.length ≤ ofBE (c :: bs) := by
  have hpos : 0 < c.toNat := UInt8.lt_iff_toNat_lt.mp (UInt8.pos_iff_ne_zero.mpr hc)
  calc 256 ^ bs.length
      ≤ c.toNat * 256 ^ bs.length := Nat.le_mul_of_pos_left _ hpos
    _ ≤ c.toNat * 256 ^ bs.length + ofBE bs := Nat.le_add_right _ _
    _ = ofBE (c :: bs) := (ofBE_cons c bs).symm

/-- How many bytes a number needs. -/
theorem IsMinimal.length_le_iff {n k : Nat} {bs : Bytes} (h : IsMinimal n bs) (hk : 1 ≤ k) :
    bs.length ≤ k ↔ n < 256 ^ k := by
  constructor
  · intro hle
    rw [← h.value]
    exact lt_of_lt_of_le (ofBE_lt bs) (Nat.pow_le_pow_right (by decide) hle)
  · intro hlt
    rcases bs with _ | ⟨c, rest⟩
    · exact absurd rfl h.ne_nil
    · by_cases hc : c = 0
      · have hsingle := h.eq_of_head (by rw [hc, List.head?_cons])
        rwa [hsingle]
      · by_contra hlong
        have hrest : k ≤ rest.length := Nat.le_of_lt_succ (Nat.not_le.mp hlong)
        have hmany := pow_le_ofBE_cons hc rest
        rw [h.value] at hmany
        have := Nat.pow_le_pow_right (n := 256) (by decide) hrest
        omega

/-- **Nothing shorter is read as the number.** -/
theorem IsMinimal.length_le {n : Nat} {bs other : Bytes} (h : IsMinimal n bs) (hne : other ≠ [])
    (hother : ofBE other = n) : bs.length ≤ other.length := by
  rw [h.length_le_iff (List.length_pos_iff.mpr hne), ← hother]
  exact ofBE_lt other

theorem isMinimal_iff {n : Nat} {bs : Bytes} : IsMinimal n bs ↔ bs = ofNat n := by
  constructor
  · intro h
    have hmin := isMinimal_ofNat n
    have hlength : bs.length = (ofNat n).length :=
      Nat.le_antisymm (h.length_le hmin.ne_nil hmin.value) (hmin.length_le h.ne_nil h.value)
    exact ofBE_injective hlength (h.value.trans hmin.value.symm)
  · rintro rfl
    exact isMinimal_ofNat n

/-! ## 2. Padding -/

/-- What does not fit is not padded. -/
theorem ofNatPadded_of_not_fits {n width : Nat} (h : ¬ (1 ≤ width ∧ n < 256 ^ width)) :
    ofNatPadded n width = ofNat n := by
  have hle : width ≤ (ofNat n).length := by
    by_contra hshort
    refine h ⟨by omega, ?_⟩
    exact ((isMinimal_ofNat n).length_le_iff (by omega)).mp (by omega)
  rw [ofNatPadded, Nat.sub_eq_zero_of_le hle, List.replicate_zero, List.nil_append]

/-- Zero bytes in front fit into a buffer if the block does. -/
theorem checkedOfNatPadded_of_le (n : Nat) {width : Nat} (h : width ≤ maxBufferLength) :
    checkedOfNatPadded n width = .ok (ofNatPadded n width) :=
  if_neg (by omega)

end Bytes

/-! ## 3. Encrypted blocks -/

namespace RsaKey

theorem encrypt_eq_ok_iff {key : RsaKey} {data block : Bytes} :
    key.encrypt data = .ok block ↔ key.modulus ≠ 0 ∧
      block = Bytes.ofNatPadded (Bytes.ofBE data ^ key.exponent % key.modulus) 256 := by
  unfold encrypt
  rw [Number.powMod_eq]
  split
  · rename_i hzero
    simp [hzero]
  · rename_i hne
    rw [and_iff_right hne, Except.ok.injEq, eq_comm]
    rfl

/-- **An encrypted block is never short.** -/
theorem exists_encrypt {key : RsaKey} (hpos : 0 < key.modulus) (hle : key.modulus ≤ 2 ^ 2048)
    (data : Bytes) :
    ∃ block, key.encrypt data = .ok block ∧ block.length = 256 ∧
      Bytes.ofBE block = Bytes.ofBE data ^ key.exponent % key.modulus := by
  have hfits : Bytes.ofBE data ^ key.exponent % key.modulus < 256 ^ 256 :=
    calc Bytes.ofBE data ^ key.exponent % key.modulus
        < key.modulus := Nat.mod_lt _ hpos
      _ ≤ 2 ^ 2048 := hle
      _ = 256 ^ 256 := by rw [Bytes.pow_256_eq]
  exact ⟨_, encrypt_eq_ok_iff.mpr ⟨Nat.ne_of_gt hpos, rfl⟩,
    Bytes.length_ofNatPadded (by decide) hfits, Bytes.ofBE_ofNatPadded _ _⟩

end RsaKey

/-- **Padding keeps the number, and reaches the width or is none.**

* For every number and every width, what is written is read as the number.  It has as many bytes as
  the width says if the width is one or more and the number is below that power of 256.  If not, it
  is the one string that writes the number without a zero byte in front, zero as one zero byte, and
  no string but the empty one is shorter and read as the number.  It is written without a fault,
  unless no buffer could hold as many bytes as the width says.
* A block that is encrypted to a key with a modulus of no more than `2 ^ 2048` has 256 bytes,
  whatever the data are, and is read as the power of their number modulo the modulus. -/
theorem padding_exact :
    (∀ n width,
      Bytes.ofBE (Bytes.ofNatPadded n width) = n ∧
      (1 ≤ width ∧ n < 256 ^ width → (Bytes.ofNatPadded n width).length = width) ∧
      (¬ (1 ≤ width ∧ n < 256 ^ width) →
        (∀ bs, Bytes.IsMinimal n bs ↔ bs = Bytes.ofNatPadded n width) ∧
        ∀ bs ≠ [], Bytes.ofBE bs = n → (Bytes.ofNatPadded n width).length ≤ bs.length) ∧
      (width ≤ 2 ^ 63 - 1 →
        Bytes.checkedOfNatPadded n width = .ok (Bytes.ofNatPadded n width))) ∧
    ∀ (key : RsaKey) (data : Bytes), 0 < key.modulus → key.modulus ≤ 2 ^ 2048 →
      ∃ block, key.encrypt data = .ok block ∧ block.length = 256 ∧
        Bytes.ofBE block = Bytes.ofBE data ^ key.exponent % key.modulus := by
  refine ⟨fun n width => ⟨Bytes.ofBE_ofNatPadded n width, ?fits, ?minimal, ?buffer⟩,
    fun _ data hpos hle => RsaKey.exists_encrypt hpos hle data⟩
  case fits =>
    rintro ⟨hwidth, hlt⟩
    exact Bytes.length_ofNatPadded hwidth hlt
  case minimal =>
    intro hwide
    rw [Bytes.ofNatPadded_of_not_fits hwide]
    refine ⟨fun bs => Bytes.isMinimal_iff, ?_⟩
    intro bs hne hvalue
    exact (Bytes.isMinimal_ofNat n).length_le hne hvalue
  case buffer =>
    intro hle
    exact Bytes.checkedOfNatPadded_of_le n hle

/-- A number that fits, one that does not, and a block that is zero bytes but for the last one. -/
theorem padding_exact_small :
    (1 ≤ 3 ∧ 1 < 256 ^ 3 ∧ (Bytes.ofNatPadded 1 3).length = 3) ∧
    (¬ (1 ≤ 1 ∧ 256 < 256 ^ 1) ∧ Bytes.IsMinimal 256 (Bytes.ofNatPadded 256 1)) ∧
    (3 ≤ 2 ^ 63 - 1 ∧ Bytes.checkedOfNatPadded 1 3 = .ok (Bytes.ofNatPadded 1 3)) ∧
    0 < 35 ∧ 35 ≤ 2 ^ 2048 ∧
      ∃ block, RsaKey.encrypt ⟨35, 5⟩ [2] = .ok block ∧ block.length = 256 ∧
        Bytes.ofBE block = 32 := by
  obtain ⟨hpadding, hencrypt⟩ := padding_exact
  have hwide : ¬ (1 ≤ 1 ∧ 256 < 256 ^ 1) := by decide
  have hsix : ∀ k ≥ 6, 35 ≤ 2 ^ k := fun k hk =>
    Nat.le_trans (by decide : 35 ≤ 2 ^ 6) (Nat.pow_le_pow_right Nat.two_pos hk)
  have hle := hsix 2048 (by decide)
  exact ⟨⟨by decide, by decide, (hpadding 1 3).2.1 ⟨by decide, by decide⟩⟩,
    ⟨hwide, (((hpadding 256 1).2.2.1 hwide).1 _).mpr rfl⟩,
    ⟨by decide, (hpadding 1 3).2.2.2 (by decide)⟩, by decide, hle,
    hencrypt ⟨35, 5⟩ [2] (by decide) hle⟩

end Mtproto
