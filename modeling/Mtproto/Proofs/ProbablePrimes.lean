import Mathlib.Tactic.Common
import Mathlib.Tactic.NormNum.Prime
import Mtproto.Proofs.Preconditions
import Mtproto.Proofs.StrongLiars

/-!
# What the test for primes says

`Number.isProbablePrime` divides by the small primes and then asks random bases.  Whenever its draws
come to an end, the test says yes or no, and never asks for a base where there is none.  What it
says of a number without small factors is exactly what its bases say: they are drawn one after the
other, all between two and `n - 2`, and the number passes if it looks like a prime to each of them.

* `passes_iff_looksPrime`: one base.  The squaring loop stops early, at the first -1 and at the
  first 1, and neither changes what it finds: after a 1 there are only ones, so that a -1 cannot
  come behind it.
* `isProbablePrime_verdict`: the whole test.  It is never false of a prime, and a fault never comes
  of it but that a draw has stalled.
-/

namespace Mtproto.Number

/-! ## 1. One base -/

/-- There is one way to split a number into a power of two and an odd number. -/
theorem twos_two_pow_mul {s d : Nat} (hodd : d % 2 = 1) : twos (2 ^ s * d) = s := by
  induction s with
  | zero =>
    have hpos : d ≠ 0 := by omega
    rw [pow_zero, one_mul, twos, if_neg hpos, if_neg (by omega)]
  | succ s ih =>
    have hdouble : 2 ^ (s + 1) * d = 2 * (2 ^ s * d) := by rw [pow_succ', mul_assoc]
    have hpos : 2 * (2 ^ s * d) ≠ 0 := by
      have := Nat.mul_pos (Nat.two_pow_pos s) (by omega : 0 < d)
      omega
    rw [hdouble, twos, if_neg hpos, if_pos (Nat.mul_mod_right 2 _),
      Nat.mul_div_cancel_left _ (by decide : 0 < 2), ih]

theorem shiftRight_two_pow_mul (s d : Nat) : (2 ^ s * d) >>> s = d := by
  rw [Nat.shiftRight_eq_div_pow, Nat.mul_div_cancel_left _ (Nat.two_pow_pos s)]

/-- If -1 comes up among the next squares, it is found. -/
theorem meetsMinusOne_of_pow {n steps x r : Nat} (hn : 2 < n) (hr : r < steps)
    (h : x ^ 2 ^ (r + 1) % n = n - 1) : meetsMinusOne n steps x = true := by
  induction steps generalizing x r with
  | zero => exact absurd hr (Nat.not_lt_zero r)
  | succ steps ih =>
    rw [meetsMinusOne]
    by_cases hnext : x * x % n = n - 1
    · rw [if_pos hnext]
    · rw [if_neg hnext]
      cases r with
      | zero =>
        rw [Nat.zero_add, pow_one, pow_two] at h
        exact absurd h hnext
      | succ r =>
        rw [← square_pow_mod] at h
        have hone : x * x % n ≠ 1 := by
          intro hone
          rw [hone, one_pow, Nat.mod_eq_of_lt (by omega)] at h
          omega
        rw [if_neg hone]
        exact ih (Nat.lt_of_succ_lt_succ hr) h

/-- **A base passes exactly if the number looks like a prime to it.** -/
theorem passes_iff_looksPrime {n base : Nat} (hlarge : 2 < n) (hodd : n % 2 = 1) :
    passes n base = true ↔ LooksPrime n base := by
  refine ⟨looksPrime_of_passes (by omega) hodd, ?_⟩
  rintro ⟨s, d, hsplit, hd, hpowers⟩
  have hs : twos (n - 1) = s := by rw [hsplit, twos_two_pow_mul hd]
  have hshift : (n - 1) >>> s = d := by rw [hsplit, shiftRight_two_pow_mul]
  simp only [passes, hs, hshift, powMod_eq, Bool.or_eq_true, decide_eq_true_eq]
  rcases hpowers with hone | ⟨r, hr, hminus⟩
  · exact .inl (.inl hone)
  · cases r with
    | zero =>
      rw [pow_zero, one_mul] at hminus
      exact .inl (.inr hminus)
    | succ r =>
      refine .inr (meetsMinusOne_of_pow (r := r) hlarge (by omega) ?_)
      rw [← Nat.pow_mod, ← pow_mul, mul_comm, hminus]

/-! ## 2. All bases -/

theorem Bases.bounds {n : Nat} {e e' : Entropy} {bases : List Nat} (h : Bases n e bases e') :
    ∀ base ∈ bases, 2 ≤ base ∧ base ≤ n - 2 := by
  induction h with
  | nil => simp
  | cons first _ ih =>
    obtain ⟨hlo, hhi⟩ := Draw.naturalBetween_bounds first
    exact List.forall_mem_cons.mpr ⟨⟨hlo, by omega⟩, ih⟩

theorem trialDivision_of_not_dvd {n : Nat} {ps : List Nat} (h : ∀ p ∈ ps, ¬ p ∣ n) :
    trialDivision ps n = none := by
  induction ps with
  | nil => rfl
  | cons p ps ih =>
    obtain ⟨hp, hps⟩ := List.forall_mem_cons.mp h
    have hne : n ≠ p := fun heq => hp (Dvd.intro 1 (by rw [heq, mul_one]))
    rw [trialDivision, if_neg hne, if_neg fun hmod => hp (Nat.dvd_of_mod_eq_zero hmod), ih hps]

/-- A number without small factors passes exactly if it looks like a prime to all the bases that
are drawn for it. -/
theorem isProbablePrime_eq_true_iff {n rounds : Nat} {e e' : Entropy}
    (hfactors : ∀ p : Nat, p.Prime → p ≤ 47 → ¬ p ∣ n) :
    isProbablePrime n rounds e = (.ok true, e') ↔ 1 < n ∧ ∃ bases, bases.length = rounds ∧
      Bases n e bases e' ∧ ∀ base ∈ bases, 2 ≤ base ∧ base ≤ n - 2 ∧ LooksPrime n base := by
  have hsmall : ∀ p ∈ smallPrimes, ¬ p ∣ n := fun p hp =>
    hfactors p (prime_of_mem_smallPrimes hp) ((by decide : ∀ q ∈ smallPrimes, q ≤ 47) p hp)
  have hopen := trialDivision_of_not_dvd hsmall
  unfold isProbablePrime
  simp only [hopen]
  by_cases htwo : n < 2
  · rw [if_pos htwo]
    refine iff_of_false (fun h => ?_) fun h => absurd h.1 (by omega)
    cases (ok_pair_eq_iff.mp h).1
  · have hodd : n % 2 = 1 := by
      have := hsmall 2 (by decide)
      omega
    rw [if_neg htwo, noWitness_eq_true_iff, and_iff_right (by omega : 1 < n)]
    refine exists_congr fun bases => and_congr_right fun _ => and_congr_right fun hbases => ?_
    refine forall₂_congr fun base hbase => ?_
    obtain ⟨hlo, hhi⟩ := hbases.bounds base hbase
    rw [passes_iff_looksPrime (by omega) hodd, and_iff_right hlo, and_iff_right hhi]

/-! ## 3. The test -/

/-- **What `isProbablePrime` answers.**  Take any number, any number of rounds and any tape on which
no draw stalls.

* No operation is asked for what it cannot give, and there is an answer.
* The answer for a prime is yes.
* The answer for a number without a prime factor up to 47 is yes exactly if the number is not one
  and looks like a prime to each of the bases that are drawn for the rounds. -/
theorem isProbablePrime_verdict {n rounds : Nat} {e : Entropy}
    (hends : (isProbablePrime n rounds e).1 ≠ .error .drawStalled) :
    (∀ mark, Checked.isProbablePrime mark n rounds e = isProbablePrime n rounds e) ∧
    (∃ b e', isProbablePrime n rounds e = (.ok b, e')) ∧
    (n.Prime → ∃ e', isProbablePrime n rounds e = (.ok true, e')) ∧
    ((∀ p : Nat, p.Prime → p ≤ 47 → ¬ p ∣ n) → ∀ e',
      isProbablePrime n rounds e = (.ok true, e') ↔ 1 < n ∧ ∃ bases, bases.length = rounds ∧
        Bases n e bases e' ∧ ∀ base ∈ bases, 2 ≤ base ∧ base ≤ n - 2 ∧ LooksPrime n base) := by
  obtain ⟨b, e', hrun⟩ := (steady_isProbablePrime n rounds).exists_ok hends
  refine ⟨fun mark => by rw [Checked.isProbablePrime_eq], ⟨b, e', hrun⟩, fun hn => ?_,
    fun hfactors e' => isProbablePrime_eq_true_iff hfactors⟩
  obtain rfl := isProbablePrime_of_prime hn hrun
  exact ⟨e', hrun⟩

/-- A composite number passes by luck: it looks like a prime to two, which is the base that is
drawn from a tape of zero bytes. -/
theorem isProbablePrime_verdict_luck :
    8321 = 53 * 157 ∧ (isProbablePrime 8321 1 (.starting [])).1 ≠ .error .drawStalled ∧
      ∃ e', isProbablePrime 8321 1 (.starting []) = (.ok true, e') := by
  have hproduct : 8321 = 53 * 157 := by decide
  have hends : (isProbablePrime 8321 1 (.starting [])).1 ≠ .error .drawStalled :=
    (steady_isProbablePrime 8321 1).not_stalled
      (Entropy.fair_of_blank (fun _ => rfl) (by decide))
  obtain ⟨-, -, -, hverdict⟩ := isProbablePrime_verdict hends
  have hfactors : ∀ p : Nat, p.Prime → p ≤ 47 → ¬ p ∣ 8321 := by
    intro p hp hle hdvd
    rw [hproduct] at hdvd
    rcases hp.dvd_mul.mp hdvd with h | h
    all_goals
      have := (Nat.prime_dvd_prime_iff_eq hp (by norm_num)).mp h
      omega
  have hwords : (Draw.bitLength (8321 - 1 - 2) + 31) / 32 = 0 + 1 := by decide
  have hbase : Draw.naturalBetween 2 (8321 - 1) (.starting []) =
      (.ok 2, (Entropy.starting []).skip 4) :=
    Draw.naturalBetween_of_blank (by decide) hwords (by decide) fun _ _ => rfl
  have hlooks : LooksPrime 8321 2 := ⟨7, 65, by decide, by decide, by decide⟩
  exact ⟨hproduct, hends, _, (hverdict hfactors _).mpr ⟨by decide, [2], rfl, .cons hbase (.nil _),
    List.forall_mem_singleton.mpr ⟨by decide, by decide, hlooks⟩⟩⟩

end Mtproto.Number
