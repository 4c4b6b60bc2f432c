import Mathlib.FieldTheory.Finite.Basic
import Mathlib.NumberTheory.LucasLehmer
import Mtproto.Number.Primality
import Mtproto.Proofs.Act
import Mtproto.Proofs.Bytes
import Mtproto.Proofs.PowMod

/-!
# Primes pass the test

`Number.isProbablePrime` tests the modulus that the server has sent.  It never refuses a prime.

Modulo a prime, one has no square roots but itself and minus one (`eq_one_or_eq_pred`).  So in the
sequence of squares that ends in one, what comes before the first one is minus one, which is what a
base is asked for (`passes_of_prime`).

Bases are drawn from a range that has no multiple of the prime in it (`naturalBetween_bounds`), and
no small prime divides another prime (`trialDivision_of_prime`).  Hence `isProbablePrime_of_prime`,
and the modulus of the simulated server passes (`prime_two_pow_sub_one`).
-/

namespace Mtproto.Number

/-! ## 1. Square roots of one -/

theorem eq_one_or_eq_pred {n x : Nat} (hn : n.Prime) (hx : x < n) (h : x * x % n = 1) :
    x = 1 ∨ x = n - 1 := by
  have hone : 1 % n = 1 := Nat.mod_eq_of_lt hn.one_lt
  have hmod : x * x ≡ 1 [MOD n] := by rw [Nat.ModEq, h, hone]
  have := Fact.mk hn
  have hsq : (x : ZMod n) * x = 1 := by
    have hcast := (ZMod.natCast_eq_natCast_iff _ _ _).mpr hmod
    rwa [Nat.cast_mul, Nat.cast_one] at hcast
  rcases mul_self_eq_one_iff.mp hsq with hpos | hneg
  · refine Or.inl ?_
    have hcast : ((x : Nat) : ZMod n) = ((1 : Nat) : ZMod n) := by rw [hpos, Nat.cast_one]
    have := (ZMod.natCast_eq_natCast_iff' _ _ _).mp hcast
    rwa [Nat.mod_eq_of_lt hx, hone] at this
  · refine Or.inr ?_
    have hcast : ((x + 1 : Nat) : ZMod n) = 0 := by
      rw [Nat.cast_add, hneg, Nat.cast_one, neg_add_cancel]
    have hdvd := (ZMod.natCast_eq_zero_iff _ _).mp hcast
    have := Nat.le_of_dvd (Nat.succ_pos x) hdvd
    omega

theorem square_pow_mod (n x i : Nat) :
    (x * x % n) ^ 2 ^ i % n = x ^ 2 ^ (i + 1) % n := by
  rw [← Nat.pow_mod, ← pow_two, ← pow_mul, pow_succ' 2 i]

/-- Where the squares end in one and neither one nor minus one is there at the start, minus one
is met on the way. -/
theorem meetsMinusOne_of_prime {n : Nat} (hn : n.Prime) {steps x : Nat} (hx : x < n) (h1 : x ≠ 1)
    (hpred : x ≠ n - 1) (h : x ^ 2 ^ (steps + 1) % n = 1) : meetsMinusOne n steps x = true := by
  induction steps generalizing x with
  | zero =>
    rw [Nat.zero_add, pow_one, pow_two] at h
    rcases eq_one_or_eq_pred hn hx h with hroot | hroot
    · exact absurd hroot h1
    · exact absurd hroot hpred
  | succ steps ih =>
    rw [meetsMinusOne]
    by_cases hnext : x * x % n = n - 1
    · rw [if_pos hnext]
    · have hone : x * x % n ≠ 1 := by
        intro hsq
        rcases eq_one_or_eq_pred hn hx hsq with hroot | hroot
        · exact h1 hroot
        · exact hpred hroot
      rw [if_neg hnext, if_neg hone]
      refine ih (Nat.mod_lt _ hn.pos) hone hnext ?_
      rw [square_pow_mod, h]

/-! ## 2. Bases -/

theorem two_pow_twos_mul {n : Nat} (h : n ≠ 0) : 2 ^ twos n * (n >>> twos n) = n := by
  induction n using Nat.strongRecOn with
  | ind n ih =>
    rw [twos, if_neg h]
    split
    · have hhalf := ih (n / 2) (by omega) (by omega)
      rw [Nat.shiftRight_eq_div_pow] at hhalf ⊢
      rw [pow_succ', ← Nat.div_div_eq_div_mul, mul_assoc, hhalf]
      omega
    · simp

/-- **No base shows that a prime is composite.** -/
theorem passes_of_prime {n base : Nat} (hn : n.Prime) (hbase : ¬ n ∣ base) :
    passes n base = true := by
  have hpos : n - 1 ≠ 0 := by
    have := hn.two_le
    omega
  have hfermat : base ^ (n - 1) % n = 1 := by
    have hcoprime : base.Coprime n := ((Nat.Prime.coprime_iff_not_dvd hn).mpr hbase).symm
    have := Nat.ModEq.pow_totient hcoprime
    rwa [Nat.totient_prime hn, Nat.ModEq, Nat.mod_eq_of_lt hn.one_lt] at this
  have hsplit := two_pow_twos_mul hpos
  rw [passes]
  generalize twos (n - 1) = s at hsplit ⊢
  have hx : powMod base ((n - 1) >>> s) n < n := by
    rw [powMod_eq]
    exact Nat.mod_lt _ hn.pos
  have hend : powMod base ((n - 1) >>> s) n ^ 2 ^ s % n = 1 := by
    rw [powMod_eq, ← Nat.pow_mod, ← pow_mul, mul_comm, hsplit, hfermat]
  generalize powMod base ((n - 1) >>> s) n = x at hx hend
  by_cases h1 : x = 1
  · simp [h1]
  · by_cases hpred : x = n - 1
    · simp [hpred]
    · cases s with
      | zero =>
        rw [pow_zero, pow_one, Nat.mod_eq_of_lt hx] at hend
        exact absurd hend h1
      | succ s =>
        simp only [Nat.add_sub_cancel, meetsMinusOne_of_prime hn hx h1 hpred hend, Bool.or_true]

end Mtproto.Number

/-! ## 3. Drawing a base -/

namespace Mtproto.Draw

/-- What a search ends with is what some candidate has given. -/
theorem candidate_of_search {α : Type} {c : Draw (Option α)} {patience : Nat} {e e' : Entropy}
    {a : α} (h : search c patience e = (.ok a, e')) : ∃ e₁, c e₁ = (.ok (some a), e') := by
  induction patience generalizing e with
  | zero => exact absurd h error_pair_ne_ok
  | succ patience ih =>
    rw [search, bind_eq_ok_iff] at h
    obtain ⟨a?, e₁, hc, hrest⟩ := h
    cases a? with
    | none => exact ih hrest
    | some b =>
      obtain ⟨rfl, rfl⟩ := ok_pair_eq_iff.mp hrest
      exact ⟨e, hc⟩

theorem lt_of_naturalCandidate {range n : Nat} {e e' : Entropy}
    (h : naturalCandidate range e = (.ok (some n), e')) : n < range := by
  unfold naturalCandidate at h
  rw [run_bind_ok (run_octets _ e), run_bind_ok (run_octets _ _)] at h
  obtain ⟨hn, -⟩ := ok_pair_eq_iff.mp h
  split at hn
  · cases hn
    assumption
  · cases hn

/-- A number that is drawn between two bounds is between them. -/
theorem naturalBetween_bounds {lo hi n : Nat} {e e' : Entropy}
    (h : naturalBetween lo hi e = (.ok n, e')) : lo ≤ n ∧ n < hi := by
  rw [naturalBetween, bind_eq_ok_iff] at h
  obtain ⟨m, e₁, hm, hn⟩ := h
  obtain ⟨rfl, rfl⟩ := ok_pair_eq_iff.mp hn
  obtain ⟨e₂, hc⟩ := candidate_of_search hm
  have := lt_of_naturalCandidate hc
  omega

theorem bitLength_eq {n k : Nat} (hlo : 2 ^ k ≤ n) (hhi : n < 2 ^ (k + 1)) :
    bitLength n = k + 1 := by
  have hpos : n ≠ 0 := by
    have := Nat.two_pow_pos k
    omega
  rw [bitLength, if_neg hpos, (Nat.log2_eq_iff hpos).mpr ⟨hlo, hhi⟩]

theorem firstAccepted_of_candidate {α : Type} {c : Draw (Option α)} {e e' : Entropy} {a : α}
    (hpatience : e.patience ≠ 0) (h : c e = (.ok (some a), e')) :
    firstAccepted c e = (.ok a, e') := by
  have hstep : firstAccepted c e = search c e.patience e := rfl
  obtain ⟨patience, hsucc⟩ := Nat.exists_eq_succ_of_ne_zero hpatience
  rw [hstep, hsucc, search, run_bind_ok h]
  rfl

theorem run_naturalCandidate {range words : Nat} (e : Entropy)
    (hwords : (bitLength range + 31) / 32 = words + 1) :
    naturalCandidate range e = (.ok
      (if Bytes.ofLE (e.peek (4 * words)) + (Bytes.ofLE ((e.skip (4 * words)).peek 4) >>>
          (32 * (words + 1) - bitLength range)) <<< (32 * words) < range then
        some (Bytes.ofLE (e.peek (4 * words)) + (Bytes.ofLE ((e.skip (4 * words)).peek 4) >>>
          (32 * (words + 1) - bitLength range)) <<< (32 * words))
      else none), (e.skip (4 * words)).skip 4) := by
  have hpred : words = (bitLength range + 31) / 32 - 1 := by omega
  rw [← hwords, hpred]
  rfl

/-- Zero bytes are the smallest number of a range. -/
theorem naturalBetween_of_blank {lo hi words : Nat} {e : Entropy} (hlt : lo < hi)
    (hwords : (bitLength (hi - lo) + 31) / 32 = words + 1) (hpatience : e.patience ≠ 0)
    (h : e.Blank (4 * words + 4)) :
    naturalBetween lo hi e = (.ok lo, e.skip (4 * words + 4)) := by
  have hcandidate : naturalCandidate (hi - lo) e = (.ok (some 0), e.skip (4 * words + 4)) := by
    have hpos : 0 < hi - lo := Nat.sub_pos_of_lt hlt
    rw [run_naturalCandidate e hwords, Entropy.peek_of_blank h.left, Entropy.peek_of_blank h.skip,
      Bytes.ofLE_zeros, Bytes.ofLE_zeros, Nat.zero_shiftRight, Nat.zero_shiftLeft, if_pos hpos,
      Entropy.skip_skip]
  rw [naturalBetween, run_bind_ok (firstAccepted_of_candidate hpatience hcandidate)]
  rfl

end Mtproto.Draw

/-! ## 4. The test -/

namespace Mtproto.Number

theorem trialDivision_of_prime {n : Nat} (hn : n.Prime) {ps : List Nat} (hps : 1 ∉ ps) :
    trialDivision ps n ≠ some false := by
  induction ps with
  | nil => simp [trialDivision]
  | cons p ps ih =>
    rw [List.mem_cons, not_or] at hps
    rw [trialDivision]
    split
    · simp
    · rename_i hne
      split
      · rename_i hmod
        rcases (Nat.dvd_prime hn).mp (Nat.dvd_of_mod_eq_zero hmod) with hp | hp
        · exact absurd hp.symm hps.1
        · exact absurd hp.symm hne
      · exact ih hps.2

/-- Smaller numbers leave it open whether a prime is one. -/
theorem trialDivision_eq_none {n : Nat} (hn : n.Prime) {ps : List Nat}
    (hps : ∀ p ∈ ps, p ≠ 1 ∧ p < n) : trialDivision ps n = none := by
  induction ps with
  | nil => rfl
  | cons p ps ih =>
    obtain ⟨hone, hlt⟩ := hps p List.mem_cons_self
    have hmod : n % p ≠ 0 := by
      intro hmod
      rcases (Nat.dvd_prime hn).mp (Nat.dvd_of_mod_eq_zero hmod) with hp | hp
      · exact hone hp
      · exact hlt.ne hp
    rw [trialDivision, if_neg hlt.ne', if_neg hmod]
    exact ih fun q hq => hps q (List.mem_cons_of_mem p hq)

theorem noWitness_of_prime {n : Nat} (hn : n.Prime) {rounds : Nat} {e e' : Entropy} {b : Bool}
    (h : noWitness n rounds e = (.ok b, e')) : b = true := by
  induction rounds generalizing e with
  | zero => exact (ok_pair_eq_iff.mp h).1.symm
  | succ rounds ih =>
    rw [noWitness, bind_eq_ok_iff] at h
    obtain ⟨base, e₁, hbase, hrest⟩ := h
    obtain ⟨hlo, hhi⟩ := Draw.naturalBetween_bounds hbase
    have hdvd : ¬ n ∣ base := Nat.not_dvd_of_pos_of_lt (by omega) (by omega)
    rw [if_pos (passes_of_prime hn hdvd)] at hrest
    exact ih hrest

/-- **A prime is never refused**: whenever the test of a prime ends, it says yes. -/
theorem isProbablePrime_of_prime {n : Nat} (hn : n.Prime) {rounds : Nat} {e e' : Entropy}
    {b : Bool} (h : isProbablePrime n rounds e = (.ok b, e')) : b = true := by
  have htrial : trialDivision smallPrimes n ≠ some false := trialDivision_of_prime hn (by decide)
  have htwo : ¬ n < 2 := Nat.not_lt.mpr hn.two_le
  unfold isProbablePrime at h
  cases hanswer : trialDivision smallPrimes n with
  | none =>
    simp only [hanswer, if_neg htwo] at h
    exact noWitness_of_prime hn h
  | some answer =>
    simp only [hanswer] at h
    obtain ⟨rfl, -⟩ := ok_pair_eq_iff.mp h
    cases answer with
    | false => exact absurd hanswer htrial
    | true => rfl

/-- A prime passes all rounds on zero bytes: every base is two. -/
theorem noWitness_of_blank {n words : Nat} (hn : n.Prime) (h3 : 3 < n) {e : Entropy}
    (hwords : (Draw.bitLength (n - 1 - 2) + 31) / 32 = words + 1) (hpatience : e.patience ≠ 0)
    (rounds : Nat) (h : e.Blank (rounds * (4 * words + 4))) :
    noWitness n rounds e = (.ok true, e.skip (rounds * (4 * words + 4))) := by
  induction rounds generalizing e with
  | zero =>
    rw [Nat.zero_mul]
    rfl
  | succ rounds ih =>
    have hbase : ¬ n ∣ 2 := Nat.not_dvd_of_pos_of_lt (by decide) (by omega)
    rw [Nat.succ_mul, Nat.add_comm (rounds * _)] at h ⊢
    have hrest := ih (e := e.skip (4 * words + 4)) hpatience h.skip
    rw [noWitness, run_bind_ok (Draw.naturalBetween_of_blank (by omega) hwords hpatience h.left),
      if_pos (passes_of_prime hn hbase), hrest, Entropy.skip_skip]

/-- A Mersenne number that the simulated server uses as its modulus. -/
theorem prime_two_pow_sub_one : (2 ^ 521 - 1).Prime := by
  have htest : LucasLehmerTest 521 := by norm_num
  exact lucas_lehmer_sufficiency 521 (by decide) htest

end Mtproto.Number
