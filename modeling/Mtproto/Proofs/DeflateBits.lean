import Mathlib.Tactic.Common
import Mathlib.Tactic.Ring
import Mtproto.Gzip.Code

/-!
# The bits of compressed data

Compressed data are a list of bits, the least significant bit of each byte first (`bitText`).
Numbers stand in it least significant bit first (`bitsOf`).  The decoder, `Bits`, holds what is left
of one byte and the bytes behind it; `Bits.text` is the list of bits that it has before it.

`Decodes m bits a` says that the decoder `m` finds the value `a` at the front of any such list,
behind the bits `bits`, and leaves what follows.

* `decodes_read`: a number is found behind its bits.
* `Decodes.bind`: what is decoded one after the other stands one after the other.
* `bitsOf_inj`, `exists_of_bitText_eq`: bits tell the number, and whole bytes the bytes.

The grammars of codes, symbols and blocks are stated with `Decodes` in the modules that follow.
-/

namespace Mtproto.Gzip

/-! ## 1. Bits of numbers and of bytes -/

/-- The low `n` bits of a number, least significant first. -/
def bitsOf : (n : Nat) → Nat → List Bool
  | 0, _ => []
  | n + 1, v => decide (v % 2 = 1) :: bitsOf n (v / 2)

/-- The bits of a byte string. -/
def bitText (bs : Bytes) : List Bool :=
  bs.flatMap fun b => bitsOf 8 b.toNat

@[simp] theorem length_bitsOf (n v : Nat) : (bitsOf n v).length = n := by
  induction n generalizing v with
  | zero => rfl
  | succ n ih => rw [bitsOf, List.length_cons, ih]

theorem bitsOf_add (m n v : Nat) : bitsOf (m + n) v = bitsOf m v ++ bitsOf n (v / 2 ^ m) := by
  induction m generalizing v with
  | zero => simp [bitsOf]
  | succ m ih =>
    rw [Nat.succ_add, bitsOf, ih, bitsOf, List.cons_append, Nat.div_div_eq_div_mul, Nat.pow_succ']

/-- Bits are those of one number below `2 ^ n`. -/
theorem bitsOf_inj {n v w : Nat} : bitsOf n v = bitsOf n w ↔ v % 2 ^ n = w % 2 ^ n := by
  induction n generalizing v w with
  | zero => simp [bitsOf, Nat.mod_one]
  | succ n ih =>
    rw [bitsOf, bitsOf, List.cons.injEq, ih, decide_eq_decide, Nat.pow_succ', Nat.mod_mul,
      Nat.mod_mul]
    omega

theorem bitsOf_add_mul (n v w : Nat) : bitsOf n (v + 2 ^ n * w) = bitsOf n v :=
  bitsOf_inj.mpr (Nat.add_mul_mod_self_left v (2 ^ n) w)

/-- The bits of two numbers that stand one above the other. -/
theorem bitsOf_add_shift {m v : Nat} (h : v < 2 ^ m) (n w : Nat) :
    bitsOf (m + n) (v + 2 ^ m * w) = bitsOf m v ++ bitsOf n w := by
  have hdiv : (v + 2 ^ m * w) / 2 ^ m = w := by
    rw [Nat.add_mul_div_left v w (Nat.two_pow_pos m), Nat.div_eq_of_lt h, Nat.zero_add]
  rw [bitsOf_add, bitsOf_add_mul, hdiv]

theorem bitText_cons (b : UInt8) (bs : Bytes) :
    bitText (b :: bs) = bitsOf 8 b.toNat ++ bitText bs :=
  List.flatMap_cons

theorem bitText_append (as bs : Bytes) : bitText (as ++ bs) = bitText as ++ bitText bs :=
  List.flatMap_append

@[simp] theorem length_bitText (bs : Bytes) : (bitText bs).length = 8 * bs.length := by
  induction bs with
  | nil => rfl
  | cons b bs ih =>
    rw [bitText_cons, List.length_append, length_bitsOf, ih, List.length_cons]
    omega

/-- Bytes at the front of a list of bits are bytes at the front of the string. -/
theorem exists_of_bitText_eq {as bs : Bytes} {tail : List Bool}
    (h : bitText bs = bitText as ++ tail) : ∃ rest, bs = as ++ rest ∧ tail = bitText rest := by
  induction as generalizing bs with
  | nil => exact ⟨bs, rfl, h.symm⟩
  | cons a as ih =>
    cases bs with
    | nil =>
      have hlength := congrArg List.length h
      simp only [bitText_cons, List.length_append, length_bitsOf, length_bitText,
        List.length_nil] at hlength
      omega
    | cons b bs =>
      rw [bitText_cons, bitText_cons, List.append_assoc] at h
      obtain ⟨hbyte, hrest⟩ := List.append_inj h (by simp)
      have hb : b = a := by
        rw [bitsOf_inj, Nat.mod_eq_of_lt b.toNat_lt, Nat.mod_eq_of_lt a.toNat_lt] at hbyte
        exact UInt8.toNat_inj.mp hbyte
      obtain ⟨rest, rfl, htail⟩ := ih hrest
      exact ⟨rest, by rw [hb]; rfl, htail⟩

/-- The bits of a number that is written in whole bytes. -/
theorem bitText_le (k n : Nat) : bitText (Bytes.le k n) = bitsOf (8 * k) n := by
  induction k generalizing n with
  | zero => rfl
  | succ k ih =>
    have hbyte : bitsOf 8 (UInt8.ofNat n).toNat = bitsOf 8 n := by
      rw [bitsOf_inj, UInt8.toNat_ofNat', Nat.mod_mod]
    have hrest : bitsOf (8 + 8 * k) n = bitsOf 8 n ++ bitsOf (8 * k) (n / 256) := bitsOf_add 8 _ n
    rw [Bytes.le, bitText_cons, ih, hbyte, Nat.mul_succ, Nat.add_comm, hrest]

/-! ## 2. What a decoder has before it -/

namespace Bits

/-- The bits that have not been read. -/
def text (bits : Bits) : List Bool :=
  bitsOf bits.count bits.current ++ bitText bits.rest

/-- What is left of the current byte is less than a byte. -/
structure Tidy (bits : Bits) : Prop where
  current_lt : bits.current < 2 ^ bits.count
  count_lt : bits.count < 8

theorem tidy_start (bs : Bytes) (taken : Nat) : Tidy { rest := bs, taken } :=
  ⟨Nat.one_pos, Nat.succ_pos 7⟩

theorem text_start (bs : Bytes) (taken : Nat) : text { rest := bs, taken } = bitText bs := rfl

theorem length_text (bits : Bits) : bits.text.length = bits.count + 8 * bits.rest.length := by
  rw [text, List.length_append, length_bitsOf, length_bitText]

section Take

variable {n v current count : Nat} {rest : Bytes} {tail : List Bool}

/-- Enough bits are at hand. -/
theorem take_of_le (hv : v < 2 ^ n) (hle : n ≤ count) (hcurrent : current < 2 ^ count)
    (hcount : count < n + 8) (h : bitsOf count current ++ bitText rest = bitsOf n v ++ tail)
    (taken : Nat) :
    ∃ bits, take n current count taken rest = .ok (v, bits) ∧ bits.Tidy ∧ bits.text = tail := by
  obtain ⟨k, rfl⟩ := Nat.exists_eq_add_of_le hle
  rw [bitsOf_add, List.append_assoc] at h
  obtain ⟨hfront, htail⟩ := List.append_inj h (by simp)
  have hvalue : current % 2 ^ n = v := by
    rw [bitsOf_inj.mp hfront, Nat.mod_eq_of_lt hv]
  refine ⟨⟨current >>> n, n + k - n, rest, taken⟩, ?_, ⟨?_, ?_⟩, ?_⟩
  · rw [take.eq_def, if_pos hle, Nat.one_shiftLeft, hvalue]
  · rw [Nat.shiftRight_eq_div_pow, Nat.add_sub_cancel_left]
    exact Nat.div_lt_of_lt_mul (Nat.pow_add 2 n k ▸ hcurrent)
  · change n + k - n < 8
    omega
  · rw [text, Nat.shiftRight_eq_div_pow, Nat.add_sub_cancel_left]
    exact htail

theorem take_append (hv : v < 2 ^ n) (hcurrent : current < 2 ^ count) (hcount : count < n + 8)
    (h : bitsOf count current ++ bitText rest = bitsOf n v ++ tail) (taken : Nat) :
    ∃ bits, take n current count taken rest = .ok (v, bits) ∧ bits.Tidy ∧ bits.text = tail := by
  induction rest generalizing current count taken with
  | nil =>
    have hlength := congrArg List.length h
    simp only [List.length_append, length_bitsOf, length_bitText, List.length_nil] at hlength
    exact take_of_le hv (by omega) hcurrent hcount h taken
  | cons b rest ih =>
    rcases Nat.lt_or_ge count n with hlt | hle
    · -- the next byte goes on top of what is at hand
      have hbyte := b.toNat_lt
      have hbits : bitsOf (count + 8) (current + b.toNat <<< count) =
          bitsOf count current ++ bitsOf 8 b.toNat := by
        rw [Nat.shiftLeft_eq, Nat.mul_comm, bitsOf_add_shift hcurrent]
      have hmore : current + b.toNat <<< count < 2 ^ (count + 8) := by
        have hone : (b.toNat + 1) * 2 ^ count ≤ 2 ^ 8 * 2 ^ count :=
          Nat.mul_le_mul_right _ hbyte
        rw [Nat.succ_mul] at hone
        rw [Nat.shiftLeft_eq, Nat.pow_add, Nat.mul_comm (2 ^ count)]
        omega
      rw [bitText_cons, ← List.append_assoc, ← hbits] at h
      rw [take.eq_def, if_neg (Nat.not_le.mpr hlt)]
      exact ih hmore (by omega) h (taken + 1)
    · exact take_of_le hv hle hcurrent hcount h taken

end Take

/-- A number is read behind its bits. -/
theorem read_append {bits : Bits} (hbits : bits.Tidy) {n v : Nat} (hv : v < 2 ^ n)
    {tail : List Bool} (h : bits.text = bitsOf n v ++ tail) :
    ∃ bits', bits.read n = .ok (v, bits') ∧ bits'.Tidy ∧ bits'.text = tail :=
  take_append hv hbits.current_lt (by have := hbits.count_lt; omega) h bits.taken

end Bits

/-! ## 3. Decoding -/

variable {α β : Type}

/-- A decoder finds a value behind these bits, whatever follows them. -/
def Decodes (m : Bits → Except Halt (α × Bits)) (front : List Bool) (a : α) : Prop :=
  ∀ bits : Bits, bits.Tidy → ∀ tail, bits.text = front ++ tail →
    ∃ bits', m bits = .ok (a, bits') ∧ bits'.Tidy ∧ bits'.text = tail

theorem decodes_read {n v : Nat} (h : v < 2 ^ n) : Decodes (Bits.read · n) (bitsOf n v) v :=
  fun _ hbits _ htext => Bits.read_append hbits h htext

/-- A single bit. -/
theorem decodes_bit (b : Bool) : Decodes (Bits.read · 1) [b] b.toNat := by
  have hbit := decodes_read (n := 1) (v := b.toNat) (by cases b <;> decide)
  have hone : bitsOf 1 b.toNat = [b] := by cases b <;> rfl
  rwa [hone] at hbit

namespace Decodes

theorem pure (a : α) : Decodes (fun bits => .ok (a, bits)) [] a :=
  fun bits hbits _ htext => ⟨bits, rfl, hbits, htext⟩

/-- One after the other. -/
theorem bind {m : Bits → Except Halt (α × Bits)} {f : α → Bits → Except Halt (β × Bits)}
    {as bs : List Bool} {a : α} {b : β} (hm : Decodes m as a) (hf : Decodes (f a) bs b) :
    Decodes (fun bits => m bits >>= fun r => f r.1 r.2) (as ++ bs) b := by
  intro bits hbits tail htext
  rw [List.append_assoc] at htext
  obtain ⟨bits₁, hrun, htidy, hrest⟩ := hm bits hbits (bs ++ tail) htext
  obtain ⟨bits₂, hrun', htidy', hrest'⟩ := hf bits₁ htidy tail hrest
  refine ⟨bits₂, ?_, htidy', hrest'⟩
  beta_reduce
  rw [hrun]
  exact hrun'

theorem map {m : Bits → Except Halt (α × Bits)} {as : List Bool} {a : α} (hm : Decodes m as a)
    (f : α → β) : Decodes (fun bits => m bits >>= fun r => .ok (f r.1, r.2)) as (f a) := by
  have hall := hm.bind (f := fun a bits => .ok (f a, bits)) (pure (f a))
  rwa [List.append_nil] at hall

end Decodes

end Mtproto.Gzip
