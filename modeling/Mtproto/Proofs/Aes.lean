import Mathlib.Tactic.Common
import Mtproto.Cipher.Aes

/-!
# AES can be undone

`Aes.encryptBlock` and `Aes.decryptBlock` are inverse to each other under the same round keys, so
the cipher is a permutation of blocks whatever the key is.  Everything that is encrypted in the
protocol, in the key exchange and in envelopes, rests on this.

The argument goes up with the definitions.

* Bytes: substitution and restoration are inverse tables (`restoreByte_substituteByte`), and every
  coefficient of the inverse mixing matrix is a polynomial in `double` (`mul_nine`, ...,
  `mul_fourteen`).  The facts about single bytes are decided on numbers first, because numbers
  compute faster than words.
* Columns: both mixing matrices are linear.  That they are inverse has therefore only to be seen on
  columns with a single byte that is not zero (`eq_self_of_units`).
* States and rounds: every step of a round is undone by the step of the same name, and the rounds by
  induction on the list of round keys.

The main statement is `aes256_inverse`.
-/

namespace Mtproto.Aes

/-! ## 1. The field in numbers

Whether inversion is its own inverse is a matter of 256 cases.  They are decided on numbers,
which the kernel computes with much faster than with bytes; `toNat_inverse` says that nothing
is lost. -/

/-- `double` on numbers. -/
def doubleNat (n : Nat) : Nat :=
  if n < 128 then 2 * n else (2 * n) ^^^ 0x11B

/-- `mulFrom` on numbers. -/
def mulNatFrom : (powers : Nat) → (a b acc : Nat) → Nat
  | 0, _, _, acc => acc
  | n + 1, a, b, acc => mulNatFrom n (doubleNat a) (b / 2) (if b % 2 = 1 then acc ^^^ a else acc)

/-- `mul` on numbers. -/
def mulNat (a b : Nat) : Nat :=
  mulNatFrom 8 a b 0

/-- `inverse` on numbers. -/
def inverseNat (a : Nat) : Nat :=
  let a2 := mulNat a a
  let a4 := mulNat a2 a2
  let a8 := mulNat a4 a4
  let a16 := mulNat a8 a8
  let a32 := mulNat a16 a16
  let a64 := mulNat a32 a32
  mulNat (mulNat (mulNat (mulNat (mulNat (mulNat a2 a4) a8) a16) a32) a64) (mulNat a64 a64)

/-! The affine map of the substitution, and the one that undoes it. -/

/-- The affine map of a substitution. -/
def affine (i : UInt8) : UInt8 :=
  i ^^^ rotateBits i 1 ^^^ rotateBits i 2 ^^^ rotateBits i 3 ^^^ rotateBits i 4 ^^^ 0x63

/-- The affine map of a restoration. -/
def affineBack (b : UInt8) : UInt8 :=
  rotateBits b 1 ^^^ rotateBits b 3 ^^^ rotateBits b 6 ^^^ 0x05

/-! All that is decided by cases is decided at once. -/

/-- What holds of the 256 bytes that are listed holds of every byte. -/
theorem forall_byte {p : UInt8 → Prop} (h : ∀ i : Fin 256, p (UInt8.ofNat i)) (b : UInt8) :
    p b := by
  have hb := h ⟨b.toNat, b.toNat_lt⟩
  rwa [UInt8.ofNat_toNat] at hb

/-- Doubling and inversion in numbers, the affine maps, and the coefficients of the inverse mixing
matrix as polynomials in `double`. -/
theorem byte_cases (b : UInt8) :
    ((double b).toNat = doubleNat b.toNat ∧ inverseNat (inverseNat b.toNat) = b.toNat) ∧
    (affineBack (affine b) = b ∧ affine (affineBack b) = b) ∧
    (b &&& 0x80 = 0 ∨ b &&& 0x80 = 0x80) ∧
    mul 9 b = double (double (double b)) ^^^ b ∧
    mul 11 b = double (double (double b)) ^^^ double b ^^^ b ∧
    mul 13 b = double (double (double b)) ^^^ double (double b) ^^^ b ∧
    mul 14 b = double (double (double b)) ^^^ double (double b) ^^^ double b := by
  revert b
  refine forall_byte ?_
  decide +kernel

theorem toNat_double (b : UInt8) : (double b).toNat = doubleNat b.toNat :=
  (byte_cases b).1.1

theorem toNat_mulFrom (n : Nat) (a b acc : UInt8) :
    (mulFrom n a b acc).toNat = mulNatFrom n a.toNat b.toNat acc.toNat := by
  induction n generalizing a b acc with
  | zero => rfl
  | succ n ih =>
    have hbit : b &&& 1 = 1 ↔ b.toNat % 2 = 1 := by
      rw [← UInt8.toNat_inj, UInt8.toNat_and]
      exact Eq.congr_left (Nat.and_one_is_mod _)
    have hshift : (b >>> 1).toNat = b.toNat / 2 := by
      rw [UInt8.toNat_shiftRight]
      rfl
    rw [mulFrom, mulNatFrom, ih, toNat_double, hshift]
    simp only [hbit]
    split <;> simp

/-- A product of bytes, computed on their numbers, where it is decided faster. -/
theorem toNat_mul (a b : UInt8) : (mul a b).toNat = mulNat a.toNat b.toNat :=
  toNat_mulFrom 8 a b 0

theorem toNat_inverse (a : UInt8) : (inverse a).toNat = inverseNat a.toNat := by
  simp only [inverse, inverseNat, toNat_mul]

/-! ## 2. Bytes -/

/-- The inverse of a byte in the field; zero is its own. -/
theorem inverse_inverse (a : UInt8) : inverse (inverse a) = a := by
  rw [← UInt8.toNat_inj, toNat_inverse, toNat_inverse]
  exact (byte_cases a).1.2

/-- A table that has been filled once answers like the function behind it. -/
theorem lookUp_tabulate (f : UInt8 → UInt8) (b : UInt8) : lookUp (tabulate f) b = f b := by
  have hb : b.toNat < (tabulate f).size := by
    rw [tabulate, Array.size_ofFn]
    exact b.toNat_lt
  rw [lookUp, Array.getD_eq_getD_getElem?, Array.getElem?_eq_getElem hb, Option.getD_some]
  simp [tabulate]

/-- The affine map of a restoration undoes that of a substitution. -/
theorem affineBack_affine (b : UInt8) : affineBack (affine b) = b :=
  (byte_cases b).2.1.1

theorem affine_affineBack (b : UInt8) : affine (affineBack b) = b :=
  (byte_cases b).2.1.2

/-- The substitution of a byte is a permutation: the inverse in the field and the affine map are
both undone. -/
theorem restoreByte_substituteByte (b : UInt8) : restoreByte (substituteByte b) = b := by
  change inverse (affineBack (affine (inverse b))) = b
  rw [affineBack_affine, inverse_inverse]

theorem substituteByte_restoreByte (b : UInt8) : substituteByte (restoreByte b) = b := by
  change affine (inverse (inverse (affineBack b))) = b
  rw [inverse_inverse, affine_affineBack]

/-- Sums of bytes may be reordered. -/
theorem xor_left_comm (a b c : UInt8) : a ^^^ (b ^^^ c) = b ^^^ (a ^^^ c) := by
  rw [← UInt8.xor_assoc, UInt8.xor_comm a b, UInt8.xor_assoc]

/-- Multiplication by x is linear: the bit that is carried out of a sum is the sum of the two
that are carried out of its terms. -/
theorem double_xor (a b : UInt8) : double (a ^^^ b) = double a ^^^ double b := by
  have top : ∀ c : UInt8, c &&& 0x80 = 0 ∨ c &&& 0x80 = 0x80 := fun c => (byte_cases c).2.2.1
  have carry : (a ^^^ b) &&& 0x80 = (a &&& 0x80) ^^^ (b &&& 0x80) := by
    rw [← UInt8.toBitVec_inj]
    refine BitVec.eq_of_getLsbD_eq ?_
    intro i _
    simp [Bool.and_xor_distrib_right]
  simp only [double, UInt8.shiftLeft_xor, carry]
  rcases top a with ha | ha <;> rcases top b with hb | hb <;>
    simp [ha, hb, UInt8.xor_assoc, UInt8.xor_comm, xor_left_comm]

theorem double_zero : double 0 = 0 := rfl

/-! The coefficients of the inverse mixing matrix, as polynomials in `double`. -/

theorem mul_nine (b : UInt8) : mul 9 b = double (double (double b)) ^^^ b :=
  (byte_cases b).2.2.2.1

theorem mul_eleven (b : UInt8) : mul 11 b = double (double (double b)) ^^^ double b ^^^ b :=
  (byte_cases b).2.2.2.2.1

theorem mul_thirteen (b : UInt8) :
    mul 13 b = double (double (double b)) ^^^ double (double b) ^^^ b :=
  (byte_cases b).2.2.2.2.2.1

theorem mul_fourteen (b : UInt8) :
    mul 14 b = double (double (double b)) ^^^ double (double b) ^^^ double b :=
  (byte_cases b).2.2.2.2.2.2

/-! ## 3. Columns -/

namespace Column

theorem map_map_of_inverse {f g : UInt8 → UInt8} (h : ∀ b, f (g b) = b) (c : Column) :
    (c.map g).map f = c := by
  simp [map, h]

/-- Adding a column twice is no change. -/
theorem add_add_cancel (c d : Column) : (c.add d).add d = c := by
  simp only [add, UInt8.xor_assoc, UInt8.xor_self, UInt8.xor_zero]

/-- A column is the sum of the columns that have one of its bytes each. -/
theorem eq_sum (c : Column) :
    c = ((⟨c.b0, 0, 0, 0⟩ : Column).add ⟨0, c.b1, 0, 0⟩).add
      ((⟨0, 0, c.b2, 0⟩ : Column).add ⟨0, 0, 0, c.b3⟩) := by
  simp [add]

/-- The inverse mixing matrix without its tables. -/
theorem unmix_eq (c : Column) :
    c.unmix =
      ⟨mul 14 c.b0 ^^^ mul 11 c.b1 ^^^ mul 13 c.b2 ^^^ mul 9 c.b3,
        mul 9 c.b0 ^^^ mul 14 c.b1 ^^^ mul 11 c.b2 ^^^ mul 13 c.b3,
        mul 13 c.b0 ^^^ mul 9 c.b1 ^^^ mul 14 c.b2 ^^^ mul 11 c.b3,
        mul 11 c.b0 ^^^ mul 13 c.b1 ^^^ mul 9 c.b2 ^^^ mul 14 c.b3⟩ := by
  simp only [unmix, times14, times11, times13, times9, lookUp_tabulate]

/-- Mixing is linear. -/
theorem mix_add (c d : Column) : (c.add d).mix = c.mix.add d.mix := by
  simp only [mix, add, double_xor, Column.mk.injEq]
  refine ⟨?_, ?_, ?_, ?_⟩ <;> ac_rfl

theorem unmix_add (c d : Column) : (c.add d).unmix = c.unmix.add d.unmix := by
  simp only [unmix_eq, add, mul_nine, mul_eleven, mul_thirteen, mul_fourteen, double_xor,
    Column.mk.injEq]
  refine ⟨?_, ?_, ?_, ?_⟩ <;> ac_rfl

/-- **A linear map that keeps every column with a single byte keeps every column.** -/
theorem eq_self_of_units {f : Column → Column} (hadd : ∀ c d, f (c.add d) = (f c).add (f d))
    (h0 : ∀ b, f ⟨b, 0, 0, 0⟩ = ⟨b, 0, 0, 0⟩) (h1 : ∀ b, f ⟨0, b, 0, 0⟩ = ⟨0, b, 0, 0⟩)
    (h2 : ∀ b, f ⟨0, 0, b, 0⟩ = ⟨0, 0, b, 0⟩) (h3 : ∀ b, f ⟨0, 0, 0, b⟩ = ⟨0, 0, 0, b⟩)
    (c : Column) : f c = c := by
  conv_lhs => rw [eq_sum c]
  rw [hadd, hadd, hadd, h0, h1, h2, h3, ← eq_sum]

/-- The two matrices of the mixing are inverse to each other. -/
theorem unmix_mix (c : Column) : c.mix.unmix = c := by
  refine eq_self_of_units (f := fun c => c.mix.unmix) ?_ ?_ ?_ ?_ ?_ c
  · intro c d
    rw [mix_add, unmix_add]
  all_goals
    intro b
    simp [unmix_eq, mix, mul_nine, mul_eleven, mul_thirteen, mul_fourteen, double_xor, double_zero,
      UInt8.xor_assoc, UInt8.xor_comm, xor_left_comm]

theorem mix_unmix (c : Column) : c.unmix.mix = c := by
  refine eq_self_of_units (f := fun c => c.unmix.mix) ?_ ?_ ?_ ?_ ?_ c
  · intro c d
    rw [unmix_add, mix_add]
  all_goals
    intro b
    simp [unmix_eq, mix, mul_nine, mul_eleven, mul_thirteen, mul_fourteen, double_xor, double_zero,
      UInt8.xor_assoc, UInt8.xor_comm, xor_left_comm]

end Column

/-! ## 4. States -/

namespace State

theorem add_add_cancel (s t : State) : (s.add t).add t = s := by
  simp [add, Column.add_add_cancel]

theorem map_map_of_inverse {f g : Column → Column} (h : ∀ c, f (g c) = c) (s : State) :
    (s.map g).map f = s := by
  simp [map, h]

theorem unshiftRows_shiftRows (s : State) : s.shiftRows.unshiftRows = s := rfl

theorem shiftRows_unshiftRows (s : State) : s.unshiftRows.shiftRows = s := rfl

theorem restore_substitute (s : State) : s.substitute.restore = s := by
  refine map_map_of_inverse (Column.map_map_of_inverse ?_) s
  intro b
  rw [restorationTable, substitutionTable, lookUp_tabulate, lookUp_tabulate,
    restoreByte_substituteByte]

theorem substitute_restore (s : State) : s.restore.substitute = s := by
  refine map_map_of_inverse (Column.map_map_of_inverse ?_) s
  intro b
  rw [restorationTable, substitutionTable, lookUp_tabulate, lookUp_tabulate,
    substituteByte_restoreByte]

theorem ofOctets_toOctets (s : State) : ofOctets s.toOctets = s := rfl

theorem toOctets_ofOctets (b : Octets 16) : (ofOctets b).toOctets = b := by
  obtain ⟨bs, h⟩ := b
  match bs, h with
  | [_, _, _, _, _, _, _, _, _, _, _, _, _, _, _, _], _ => rfl

end State

/-! ## 5. The cipher -/

theorem decryptRounds_last (k : State) (s : State) :
    decryptRounds [k] s = (s.add k).unshiftRows.restore := by
  delta decryptRounds
  exact rfl

/-- The last round of encryption is undone first, and the key that it was added with is the last
one. -/
theorem decryptRounds_cons_cons (k k' : State) (ks : List State) (s : State) :
    decryptRounds (k :: k' :: ks) s =
      (((decryptRounds (k' :: ks) s).add k).map Column.unmix).unshiftRows.restore := by
  delta decryptRounds
  exact rfl

/-- By recursion over the round keys: the inner rounds mix the columns, the last one does not. -/
theorem decryptRounds_encryptRounds :
    ∀ (ks : List State) (s : State), decryptRounds ks (encryptRounds ks s) = s
  | [], s => rfl
  | [k], s => by
    rw [encryptRounds, decryptRounds_last, State.add_add_cancel, State.unshiftRows_shiftRows,
      State.restore_substitute]
  | k :: k' :: ks, s => by
    rw [encryptRounds.eq_3 _ _ _ (List.cons_ne_nil k' ks), decryptRounds_cons_cons,
      decryptRounds_encryptRounds (k' :: ks), State.add_add_cancel,
      State.map_map_of_inverse Column.unmix_mix, State.unshiftRows_shiftRows,
      State.restore_substitute]

theorem encryptRounds_decryptRounds :
    ∀ (ks : List State) (s : State), encryptRounds ks (decryptRounds ks s) = s
  | [], s => rfl
  | [k], s => by
    rw [encryptRounds, decryptRounds_last, State.substitute_restore, State.shiftRows_unshiftRows,
      State.add_add_cancel]
  | k :: k' :: ks, s => by
    rw [encryptRounds.eq_3 _ _ _ (List.cons_ne_nil k' ks), decryptRounds_cons_cons,
      State.substitute_restore, State.shiftRows_unshiftRows,
      State.map_map_of_inverse Column.mix_unmix, State.add_add_cancel,
      encryptRounds_decryptRounds (k' :: ks)]

/-- **Whatever the round keys are, each direction undoes the other.** -/
theorem cipher_inverse (keys : List State) : (cipher keys).Inverse where
  decrypt_encrypt b := by
    cases keys with
    | nil => rfl
    | cons k ks =>
      change decryptBlock (k :: ks) (encryptBlock (k :: ks) b) = b
      rw [encryptBlock, decryptBlock, State.ofOctets_toOctets, decryptRounds_encryptRounds,
        State.add_add_cancel, State.toOctets_ofOctets]
  encrypt_decrypt b := by
    cases keys with
    | nil => rfl
    | cons k ks =>
      change encryptBlock (k :: ks) (decryptBlock (k :: ks) b) = b
      rw [encryptBlock, decryptBlock, State.ofOctets_toOctets, State.add_add_cancel,
        encryptRounds_decryptRounds, State.toOctets_ofOctets]

/-- **AES-256 permutes the blocks, with any key,** and its two directions undo each other. -/
theorem aes256_inverse (key : Octets 32) : (aes256 key).Inverse :=
  cipher_inverse _

end Mtproto.Aes
