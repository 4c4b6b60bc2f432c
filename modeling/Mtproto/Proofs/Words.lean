import Mathlib.Data.Nat.Fib.Basic
import Mathlib.Tactic.Common
import Mtproto.Proofs.Factorization

/-!
# Arithmetic on words, up to the last one

The factorization computes with 64-bit words.  `Number.mulAddMod` forms the remainder of
`a * b + c`, and `Number.gcd` is the loop of Euclid's algorithm.  This module shows that both are
exact for all words, although a product of two words is no word.

The remainder is formed in a double word.  The largest words there are stay `2 ^ 64` below its end
(`mul_add_le`), so neither the product nor the sum passes it, and what comes out is what `mulAddMod`
says (`mulAddModWide_eq`).  A step of Pollard's rho is such a remainder (`mulAddMod_square`).

Euclid's algorithm is a loop that replaces two words at once.  `turn` is one turn of it.  A turn
keeps the greatest common divisor (`gcd_turn`) and makes the second word smaller (`turn_snd_lt`), so
the loop ends with it (`exists_turns`).  To go on for long it has to start from words that are as
large as the numbers of Fibonacci (`fib_le_of_runs`), and no word is large enough for a turn number
93.

`words_exact` is both together.
-/

namespace Mtproto.Number

/-! ## 1. Double words -/

/-- A word as a double word. -/
def widen (a : UInt64) : BitVec 128 :=
  a.toBitVec.setWidth 128

/-- The lower word of a double word. -/
def narrow (x : BitVec 128) : UInt64 :=
  UInt64.ofBitVec (x.setWidth 64)

/-- The product of two double words, unless it passes the end. -/
def mul? (x y : BitVec 128) : Option (BitVec 128) :=
  if x.umulOverflow y then none else some (x * y)

/-- The sum of two double words, unless it passes the end. -/
def add? (x y : BitVec 128) : Option (BitVec 128) :=
  if x.uaddOverflow y then none else some (x + y)

/-- `a * b + c`, formed in double words. -/
def mulAdd? (a b c : UInt64) : Option (BitVec 128) :=
  (mul? (widen a) (widen b)).bind fun product => add? product (widen c)

/-- The remainder of `a * b + c`, formed in double words and cut down to one. -/
def mulAddModWide (a b c m : UInt64) : Option (Except Fault UInt64) :=
  (mulAdd? a b c).map fun sum =>
    if m = 0 then .error .zeroModulus else .ok (narrow (sum % widen m))

@[simp] theorem toNat_widen (a : UInt64) : (widen a).toNat = a.toNat :=
  BitVec.toNat_setWidth_of_le (by decide)

theorem narrow_eq (x : BitVec 128) : narrow x = UInt64.ofNat x.toNat := by
  rw [← UInt64.toNat_inj]
  simp [narrow]

theorem exists_mul {x y : BitVec 128} (h : x.toNat * y.toNat < 2 ^ 128) :
    ∃ z, mul? x y = some z ∧ z.toNat = x.toNat * y.toNat := by
  have hfits : ¬ x.umulOverflow y = true := by simpa [BitVec.umulOverflow] using h
  exact ⟨x * y, if_neg hfits, BitVec.toNat_mul_of_not_umulOverflow hfits⟩

theorem exists_add {x y : BitVec 128} (h : x.toNat + y.toNat < 2 ^ 128) :
    ∃ z, add? x y = some z ∧ z.toNat = x.toNat + y.toNat := by
  have hfits : ¬ x.uaddOverflow y = true := by simpa [BitVec.uaddOverflow] using h
  exact ⟨x + y, if_neg hfits, BitVec.toNat_add_of_not_uaddOverflow hfits⟩

/-- A product of words and one more word stay below the end of a double word. -/
theorem mul_add_le (a b c : UInt64) : a.toNat * b.toNat + c.toNat ≤ 2 ^ 128 - 2 ^ 64 := by
  have ha : a.toNat ≤ 2 ^ 64 - 1 := Nat.le_sub_one_of_lt a.toNat_lt
  have hb : b.toNat ≤ 2 ^ 64 - 1 := Nat.le_sub_one_of_lt b.toNat_lt
  have hc : c.toNat ≤ 2 ^ 64 - 1 := Nat.le_sub_one_of_lt c.toNat_lt
  calc a.toNat * b.toNat + c.toNat
      ≤ (2 ^ 64 - 1) * (2 ^ 64 - 1) + (2 ^ 64 - 1) := Nat.add_le_add (Nat.mul_le_mul ha hb) hc
    _ = 2 ^ 128 - 2 ^ 64 := by norm_num

/-- **Nothing passes the end of a double word.** -/
theorem exists_mulAdd (a b c : UInt64) :
    ∃ sum, mulAdd? a b c = some sum ∧ sum.toNat = a.toNat * b.toNat + c.toNat := by
  have hlt : a.toNat * b.toNat + c.toNat < 2 ^ 128 :=
    Nat.lt_of_le_of_lt (mul_add_le a b c) (by decide)
  have hmul : (widen a).toNat * (widen b).toNat < 2 ^ 128 := by
    rw [toNat_widen, toNat_widen]
    omega
  obtain ⟨product, hproduct, hvalue⟩ := exists_mul hmul
  rw [toNat_widen, toNat_widen] at hvalue
  have hadd : product.toNat + (widen c).toNat < 2 ^ 128 := by rwa [hvalue, toNat_widen]
  obtain ⟨sum, hsum, htotal⟩ := exists_add hadd
  rw [hvalue, toNat_widen] at htotal
  exact ⟨sum, by rw [mulAdd?, hproduct, Option.bind_some, hsum], htotal⟩

example : mulAdd? 0xFFFFFFFFFFFFFFFF 0xFFFFFFFFFFFFFFFF 0xFFFFFFFFFFFFFFFF =
    some 0xFFFFFFFFFFFFFFFF0000000000000000 := by decide

/-- Forming the remainder in double words is no different from forming it exactly. -/
theorem mulAddModWide_eq (a b c m : UInt64) :
    mulAddModWide a b c m = some (mulAddMod a b c m) := by
  obtain ⟨sum, hsum, hvalue⟩ := exists_mulAdd a b c
  rw [mulAddModWide, hsum, Option.map_some, narrow_eq, BitVec.toNat_umod, hvalue, toNat_widen]
  rfl

/-- The remainder is a word, and nothing of it is cut off. -/
theorem exists_mulAddMod (a b c : UInt64) {m : UInt64} (hm : 0 < m) :
    ∃ r, mulAddMod a b c m = .ok r ∧
      r.toNat = (a.toNat * b.toNat + c.toNat) % m.toNat := by
  have hne : m ≠ 0 := UInt64.pos_iff_ne_zero.mp hm
  have hlt : (a.toNat * b.toNat + c.toNat) % m.toNat < UInt64.size :=
    (Nat.mod_lt _ (toNat_pos hne)).trans m.toNat_lt
  exact ⟨_, if_neg hne, UInt64.toNat_ofNat_of_lt' hlt⟩

/-- A step of a walk is such a remainder. -/
theorem mulAddMod_square (c x : UInt64) {n : UInt64} (hn : n ≠ 0) :
    mulAddMod x x c n = .ok (walkStep n c x) :=
  if_neg hn

/-! ## 2. Euclid's algorithm -/

/-- One turn: both words are replaced at once. -/
def turn (s : UInt64 × UInt64) : UInt64 × UInt64 :=
  (s.2, s.1 % s.2)

/-- The loop comes to its first `n` turns: before each of them the second word is not zero. -/
def Runs (s : UInt64 × UInt64) (n : Nat) : Prop :=
  ∀ j < n, (turn^[j] s).2 ≠ 0

theorem runs_succ {s : UInt64 × UInt64} {n : Nat} :
    Runs s (n + 1) ↔ s.2 ≠ 0 ∧ Runs (turn s) n :=
  Nat.forall_lt_succ_left

/-- A turn keeps the greatest common divisor. -/
theorem gcd_turn {s : UInt64 × UInt64} (h : s.2 ≠ 0) :
    gcd (turn s).1 (turn s).2 = gcd s.1 s.2 := by
  conv_rhs => rw [gcd, dif_neg h]
  rfl

/-- A turn makes the second word smaller. -/
theorem turn_snd_lt {s : UInt64 × UInt64} (h : s.2 ≠ 0) : (turn s).2.toNat < s.2.toNat := by
  rw [turn, UInt64.toNat_mod]
  exact Nat.mod_lt _ (toNat_pos h)

/-- **The loop ends, and with the greatest common divisor.** -/
theorem exists_turns (s : UInt64 × UInt64) :
    ∃ n, Runs s n ∧ turn^[n] s = (gcd s.1 s.2, 0) := by
  induction hsize : s.2.toNat using Nat.strongRecOn generalizing s with
  | ind size ih =>
    by_cases hzero : s.2 = 0
    · refine ⟨0, fun j hj => absurd hj (Nat.not_lt_zero j), ?_⟩
      obtain ⟨a, b⟩ := s
      obtain rfl : b = 0 := hzero
      rw [Function.iterate_zero_apply, gcd, dif_pos rfl]
    · obtain ⟨n, hruns, hend⟩ := ih _ (hsize ▸ turn_snd_lt hzero) (turn s) rfl
      refine ⟨n + 1, runs_succ.mpr ⟨hzero, hruns⟩, ?_⟩
      rw [Function.iterate_succ_apply, hend, gcd_turn hzero]

/-- The second words of two turns in a row make up no more than the one before them. -/
theorem add_turn_le {s : UInt64 × UInt64} (h : s.2 ≠ 0) :
    (turn s).2.toNat + (turn (turn s)).2.toNat ≤ s.2.toNat := by
  have hlt := turn_snd_lt h
  have hrest : (turn (turn s)).2.toNat = s.2.toNat % (turn s).2.toNat := UInt64.toNat_mod ..
  rw [hrest]
  rcases Nat.eq_zero_or_pos (turn s).2.toNat with hzero | hpos
  · simp [hzero]
  · have hquotient : 1 ≤ s.2.toNat / (turn s).2.toNat := Nat.div_pos hlt.le hpos
    have hwhole := Nat.div_add_mod s.2.toNat (turn s).2.toNat
    have := Nat.mul_le_mul_left (turn s).2.toNat hquotient
    omega

/-- **A long loop starts from a large word.** -/
theorem fib_le_of_runs {s : UInt64 × UInt64} {n : Nat} (h : Runs s (n + 1)) :
    Nat.fib (n + 2) ≤ s.2.toNat := by
  -- two turns at a time, as the numbers of Fibonacci are made of the two before them
  induction n using Nat.twoStepInduction generalizing s with
  | zero => exact toNat_pos (runs_succ.mp h).1
  | one =>
    obtain ⟨hfirst, hrest⟩ := runs_succ.mp h
    have hlt := turn_snd_lt hfirst
    have hpos := toNat_pos (runs_succ.mp hrest).1
    show 2 ≤ s.2.toNat
    omega
  | more n ih₀ ih₁ =>
    obtain ⟨hfirst, hrest⟩ := runs_succ.mp h
    have hsecond := ih₁ hrest
    have hthird := ih₀ (runs_succ.mp hrest).2
    calc Nat.fib (n + 2 + 2)
        = Nat.fib (n + 2) + Nat.fib (n + 1 + 2) := Nat.fib_add_two
      _ ≤ (turn (turn s)).2.toNat + (turn s).2.toNat := Nat.add_le_add hthird hsecond
      _ = (turn s).2.toNat + (turn (turn s)).2.toNat := Nat.add_comm _ _
      _ ≤ s.2.toNat := add_turn_le hfirst

/-- **There are 92 turns at most**: no word is as large as the 94th number of Fibonacci. -/
theorem turns_le {s : UInt64 × UInt64} {n : Nat} (h : Runs s n) : n ≤ 92 := by
  by_contra hmany
  have hruns : Runs s (92 + 1) := fun j hj => h j (by omega)
  have hfib := fib_le_of_runs hruns
  have hlt := s.2.toNat_lt
  have : 2 ^ 64 < Nat.fib (92 + 2) := by decide
  omega

/-- There are words that take as many turns as that. -/
example : (turn^[91] (7540113804746346429, 12200160415121876738)).2 = 1 := by decide +kernel

/-! ## 3. Both -/

/-- **Arithmetic on words is exact.**  Take any words.

* `a * b + c` stays `2 ^ 64` below the end of a double word.  Neither the product nor the sum passes
  it, and forming the remainder there gives what `mulAddMod` says: for every modulus but zero, the
  remainder of `a * b + c` as an exact number.
* The loop that replaces `(a, b)` by `(b, a % b)` as long as the second word is not zero ends,
  after 92 turns at the latest, with the greatest common divisor in front; if one of the words is
  zero from the start, that is the other one. -/
theorem words_exact (a b c m : UInt64) :
    (a.toNat * b.toNat + c.toNat ≤ 2 ^ 128 - 2 ^ 64 ∧
      mulAddModWide a b c m = some (mulAddMod a b c m) ∧
      (0 < m → ∃ r, mulAddMod a b c m = .ok r ∧
        r.toNat = (a.toNat * b.toNat + c.toNat) % m.toNat)) ∧
    (gcd a b).toNat = Nat.gcd a.toNat b.toNat ∧ gcd 0 b = b ∧ gcd a 0 = a ∧
    ∃ n ≤ 92, (∀ j < n, (turn^[j] (a, b)).2 ≠ 0) ∧ turn^[n] (a, b) = (gcd a b, 0) := by
  refine ⟨⟨mul_add_le a b c, mulAddModWide_eq a b c m, exists_mulAddMod a b c⟩, toNat_gcd a b,
    ?zeroLeft, ?zeroRight, ?loop⟩
  case zeroLeft =>
    rw [← UInt64.toNat_inj, toNat_gcd]
    exact Nat.gcd_zero_left b.toNat
  case zeroRight =>
    rw [← UInt64.toNat_inj, toNat_gcd]
    exact Nat.gcd_zero_right a.toNat
  case loop =>
    obtain ⟨n, hruns, hend⟩ := exists_turns (a, b)
    exact ⟨n, turns_le hruns, hruns, hend⟩

/-- The square of the last word and one more, modulo a prime. -/
theorem words_exact_last :
    (0 : UInt64) < 1000000007 ∧
      mulAddMod 0xFFFFFFFFFFFFFFFF 0xFFFFFFFFFFFFFFFF 1 1000000007 = .ok 114944270 := by
  have hpos : (0 : UInt64) < 1000000007 := by decide
  obtain ⟨r, hr, hvalue⟩ :=
    (words_exact 0xFFFFFFFFFFFFFFFF 0xFFFFFFFFFFFFFFFF 1 1000000007).1.2.2 hpos
  have hword : r = 114944270 := UInt64.toNat_inj.mp hvalue
  exact ⟨hpos, hword ▸ hr⟩

end Mtproto.Number
