import Mathlib.Tactic.Common
import Mathlib.Tactic.NormNum.Prime
import Mtproto.Proofs.Primality

/-!
# What a composite number needs to pass the test for primes

A number that has passed `Number.isProbablePrime` is either one of the small primes, or none of the
bases that were drawn for it is a witness (`noWitness_eq_true_iff`).  `LooksPrime` says what a
single base is asked for, and `Bases` which bases are drawn from a tape, one after the other.

* `strongLiars_of_isProbablePrime`: so a composite number passes only by luck; every single base has
  to be a strong liar for it.  A server that sends a composite modulus is caught otherwise.
-/

namespace Mtproto.Number

/-! ## 1. Strong liars -/

/-- A base to which a number looks like a prime.  Take the powers of the base to the odd part of
`n - 1` and, doubling, to all its multiples below `n - 1`: the first one is 1, or one of them is
-1. -/
def LooksPrime (n base : Nat) : Prop :=
  ∃ s d, n - 1 = 2 ^ s * d ∧ d % 2 = 1 ∧
    (base ^ d % n = 1 ∨ ∃ r < s, base ^ (2 ^ r * d) % n = n - 1)

/-- A base to which a composite number looks like a prime. -/
structure IsStrongLiar (n base : Nat) : Prop where
  composite : ¬ n.Prime
  looksPrime : LooksPrime n base

theorem odd_shiftRight_twos {n : Nat} (h : n ≠ 0) : (n >>> twos n) % 2 = 1 := by
  induction n using Nat.strongRecOn with
  | ind n ih =>
    rw [twos, if_neg h]
    split
    · have hhalf := ih (n / 2) (by omega) (by omega)
      rwa [Nat.shiftRight_eq_div_pow, pow_succ', ← Nat.div_div_eq_div_mul,
        ← Nat.shiftRight_eq_div_pow]
    · rw [Nat.shiftRight_zero]
      omega

theorem twos_pos {n : Nat} (h : n ≠ 0) (heven : n % 2 = 0) : 0 < twos n := by
  rw [twos, if_neg h, if_pos heven]
  exact Nat.succ_pos _

theorem pow_eq_of_meetsMinusOne {n steps x : Nat} (h : meetsMinusOne n steps x = true) :
    ∃ r < steps, x ^ 2 ^ (r + 1) % n = n - 1 := by
  induction steps generalizing x with
  | zero => cases h
  | succ steps ih =>
    rw [meetsMinusOne] at h
    split at h
    · rename_i hfirst
      exact ⟨0, Nat.succ_pos _, by rw [Nat.zero_add, pow_one, pow_two, hfirst]⟩
    · split at h
      · cases h
      · obtain ⟨r, hr, hpow⟩ := ih h
        exact ⟨r + 1, Nat.succ_lt_succ hr, by rw [← square_pow_mod, hpow]⟩

/-- What the code looks for in an odd number is what it should look for. -/
theorem looksPrime_of_passes {n base : Nat} (hlarge : 1 < n) (hodd : n % 2 = 1)
    (h : passes n base = true) : LooksPrime n base := by
  have hpos : n - 1 ≠ 0 := by omega
  have htwos : 0 < twos (n - 1) := twos_pos hpos (by omega)
  refine ⟨twos (n - 1), (n - 1) >>> twos (n - 1), (two_pow_twos_mul hpos).symm,
    odd_shiftRight_twos hpos, ?_⟩
  simp only [passes, Bool.or_eq_true, decide_eq_true_eq, powMod_eq] at h
  rcases h with (hone | hminus) | hmeets
  · exact Or.inl hone
  · exact Or.inr ⟨0, htwos, by rw [pow_zero, one_mul, hminus]⟩
  · obtain ⟨r, hr, hpow⟩ := pow_eq_of_meetsMinusOne hmeets
    rw [← Nat.pow_mod, ← pow_mul, mul_comm] at hpow
    exact Or.inr ⟨r + 1, by omega, hpow⟩

/-! ## 2. Bases -/

/-- Bases that are drawn for a number, one after the other, and the tape after them. -/
inductive Bases (n : Nat) : Entropy → List Nat → Entropy → Prop where
  | nil (e : Entropy) : Bases n e [] e
  | cons {e e₁ e₂ : Entropy} {base : Nat} {bases : List Nat}
      (first : Draw.naturalBetween 2 (n - 1) e = (.ok base, e₁)) (rest : Bases n e₁ bases e₂) :
      Bases n e (base :: bases) e₂

/-- There is no witness exactly if as many bases as asked for are drawn and all of them pass. -/
theorem noWitness_eq_true_iff {n rounds : Nat} {e e' : Entropy} :
    noWitness n rounds e = (.ok true, e') ↔
      ∃ bases, bases.length = rounds ∧ Bases n e bases e' ∧
        ∀ base ∈ bases, passes n base = true := by
  induction rounds generalizing e with
  | zero =>
    constructor
    · intro h
      obtain ⟨-, rfl⟩ := ok_pair_eq_iff.mp h
      exact ⟨[], rfl, .nil _, by simp⟩
    · rintro ⟨bases, hlength, hbases, -⟩
      obtain rfl := List.eq_nil_of_length_eq_zero hlength
      cases hbases
      rfl
  | succ rounds ih =>
    rw [noWitness, bind_eq_ok_iff]
    constructor
    · rintro ⟨base, e₁, hbase, hrest⟩
      split at hrest
      · rename_i hpasses
        obtain ⟨bases, hlength, hbases, hall⟩ := ih.mp hrest
        exact ⟨base :: bases, congrArg (· + 1) hlength, .cons hbase hbases,
          List.forall_mem_cons.mpr ⟨hpasses, hall⟩⟩
      · cases (ok_pair_eq_iff.mp hrest).1
    · rintro ⟨bases, hlength, hbases, hall⟩
      cases hbases with
      | nil => cases hlength
      | cons first rest =>
        obtain ⟨hpasses, hall⟩ := List.forall_mem_cons.mp hall
        refine ⟨_, _, first, ?_⟩
        rw [if_pos hpasses]
        exact ih.mpr ⟨_, Nat.succ.inj hlength, rest, hall⟩

/-! ## 3. The test -/

theorem mem_of_trialDivision {n : Nat} {ps : List Nat} (h : trialDivision ps n = some true) :
    n ∈ ps := by
  induction ps with
  | nil => cases h
  | cons p ps ih =>
    rw [trialDivision] at h
    split at h
    · rename_i heq
      exact heq ▸ List.mem_cons_self
    · split at h
      · cases h
      · exact List.mem_cons_of_mem _ (ih h)

theorem prime_of_mem_smallPrimes {p : Nat} (h : p ∈ smallPrimes) : p.Prime := by
  simp only [smallPrimes, List.mem_cons, List.not_mem_nil, or_false] at h
  rcases h with rfl | rfl | rfl | rfl | rfl | rfl | rfl | rfl | rfl | rfl | rfl | rfl | rfl | rfl |
    rfl <;> norm_num

/-- **A composite number passes by luck only**: all the bases are strong liars. -/
theorem strongLiars_of_isProbablePrime {n rounds : Nat} {e e' : Entropy} (hodd : n % 2 = 1)
    (hcomposite : ¬ n.Prime) (h : isProbablePrime n rounds e = (.ok true, e')) :
    ∃ bases, bases.length = rounds ∧ Bases n e bases e' ∧ ∀ base ∈ bases, IsStrongLiar n base := by
  unfold isProbablePrime at h
  cases hanswer : trialDivision smallPrimes n with
  | some answer =>
    simp only [hanswer] at h
    obtain ⟨rfl, -⟩ := ok_pair_eq_iff.mp h
    exact absurd (prime_of_mem_smallPrimes (mem_of_trialDivision hanswer)) hcomposite
  | none =>
    simp only [hanswer] at h
    split at h
    · cases (ok_pair_eq_iff.mp h).1
    · obtain ⟨bases, hlength, hbases, hall⟩ := noWitness_eq_true_iff.mp h
      exact ⟨bases, hlength, hbases, fun base hbase =>
        ⟨hcomposite, looksPrime_of_passes (by omega) hodd (hall base hbase)⟩⟩

end Mtproto.Number
