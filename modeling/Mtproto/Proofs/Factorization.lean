import Mathlib.Data.Int.GCD
import Mathlib.Data.Nat.Prime.Basic
import Mathlib.Tactic.Common
import Mtproto.Proofs.Preconditions

/-!
# What a factorization finds

`Number.factorize` splits a word into two factors, in rounds of `Number.rho`.  It may give up when
its rounds are used up, and then it returns one and the word.

A walk that ends with a factor ends with a proper one: what a number has in common with a distance
divides the number, and neither one nor the number itself is returned (`proper_of_rho`).  So the two
factors of a word are either one and the word, which the client of the key exchange refuses, or they
split it (`Splits`).

* `factorize_splits`: whenever the draws come to an end there is such an answer.  The smaller factor
  comes first, the product is exactly the word, an even word from four on is always split, a prime
  never is, and a product of two primes leaves no choice.
-/

namespace Mtproto.Number

/-! ## 1. Arithmetic on words -/

theorem toNat_pos {n : UInt64} (h : n ≠ 0) : 0 < n.toNat :=
  UInt64.lt_iff_toNat_lt.mp (UInt64.pos_iff_ne_zero.mpr h)

theorem toNat_gcd (a b : UInt64) : (gcd a b).toNat = Nat.gcd a.toNat b.toNat := by
  induction a, b using gcd.induct with
  | case1 a => rw [gcd, dif_pos rfl, UInt64.toNat_zero, Nat.gcd_zero_right]
  | case2 a b hb ih =>
    rw [gcd, dif_neg hb, ih, UInt64.toNat_mod, Nat.gcd_comm b.toNat, ← Nat.gcd_rec, Nat.gcd_comm]

theorem toNat_distance (a b : UInt64) :
    (distance a b).toNat = ((a.toNat : Int) - b.toNat).natAbs := by
  unfold distance
  split
  · rename_i h
    rw [UInt64.toNat_sub_of_le b a (UInt64.le_of_lt h)]
    have := UInt64.lt_iff_toNat_lt.mp h
    omega
  · rename_i h
    rw [UInt64.toNat_sub_of_le a b (UInt64.not_lt.mp h)]
    have := UInt64.le_iff_toNat_le.mp (UInt64.not_lt.mp h)
    omega

theorem Walk.toNat_common (n : UInt64) (w : Walk) :
    (w.common n).toNat = Int.gcd ((w.point.toNat : Int) - w.saved.toNat) n.toNat := by
  rw [common, toNat_gcd, toNat_distance, Int.gcd, Int.natAbs_natCast]

/-! ## 2. What a walk finds -/

/-- What a walk returns divides the number, and is neither one nor the number itself. -/
theorem proper_of_rho {n p : UInt64} {budget : Nat} {w : Walk} {e e' : Entropy} (hn : n ≠ 0)
    (hrun : rho n budget w e = (.ok (some p), e')) :
    p.toNat ∣ n.toNat ∧ 1 < p.toNat ∧ p.toNat < n.toNat := by
  have hpos := toNat_pos hn
  induction budget generalizing w e with
  | zero =>
    obtain ⟨hnone, -⟩ := ok_pair_eq_iff.mp hrun
    cases hnone
  | succ budget ih =>
    unfold rho at hrun
    simp only at hrun
    split at hrun
    · obtain ⟨w', e₁, -, hrest⟩ := bind_eq_ok_iff.mp hrun
      exact ih hrest
    · rename_i hself
      split at hrun
      · rename_i hone
        obtain ⟨hsome, -⟩ := ok_pair_eq_iff.mp hrun
        obtain rfl := Option.some.inj hsome
        have hdvd : ((w.advance n).common n).toNat ∣ n.toNat := by
          rw [Walk.common, toNat_gcd]
          exact Nat.gcd_dvd_right _ _
        have hne_one : ((w.advance n).common n).toNat ≠ 1 :=
          fun h => hone (UInt64.toNat_inj.mp h)
        have hne_self : ((w.advance n).common n).toNat ≠ n.toNat :=
          fun h => hself (UInt64.toNat_inj.mp h)
        have hne_zero := Nat.pos_of_dvd_of_pos hdvd hpos
        exact ⟨hdvd, by omega, lt_of_le_of_ne (Nat.le_of_dvd hpos hdvd) hne_self⟩
      · exact ih hrun

/-! ## 3. What a factorization finds -/

/-- Two factors of a word, the smaller one first, and neither of them is the word itself. -/
structure Splits (pq p q : UInt64) : Prop where
  product : p.toNat * q.toNat = pq.toNat
  one_lt : 1 < p
  le : p ≤ q
  lt : q < pq

/-- The same as numbers. -/
theorem Splits.toNat {pq p q : UInt64} (h : Splits pq p q) :
    1 < p.toNat ∧ p.toNat ≤ q.toNat ∧ q.toNat < pq.toNat :=
  ⟨UInt64.lt_iff_toNat_lt.mp h.one_lt, UInt64.le_iff_toNat_le.mp h.le,
    UInt64.lt_iff_toNat_lt.mp h.lt⟩

/-- A proper factor and what is left split a word, put in order. -/
theorem splits_of_dvd {pq p : UInt64} (hdvd : p.toNat ∣ pq.toNat) (hone : 1 < p.toNat)
    (hlt : p.toNat < pq.toNat) :
    let f := if p ≤ pq / p then (p, pq / p) else (pq / p, p)
    Splits pq f.1 f.2 := by
  have hproduct : p.toNat * (pq / p).toNat = pq.toNat := by
    rw [UInt64.toNat_div, Nat.mul_div_cancel' hdvd]
  have hquotient : 1 < (pq / p).toNat := by
    by_contra hle
    have := Nat.mul_le_mul_left p.toNat (Nat.not_lt.mp hle)
    omega
  have hquotient_lt : (pq / p).toNat < pq.toNat := by
    rw [← hproduct]
    exact lt_mul_of_one_lt_left (by omega) hone
  show Splits pq (if p ≤ pq / p then (p, pq / p) else (pq / p, p)).1
    (if p ≤ pq / p then (p, pq / p) else (pq / p, p)).2
  split
  · rename_i hle
    exact ⟨hproduct, UInt64.lt_iff_toNat_lt.mpr hone, hle, UInt64.lt_iff_toNat_lt.mpr hquotient_lt⟩
  · rename_i hle
    exact ⟨(Nat.mul_comm _ _).trans hproduct, UInt64.lt_iff_toNat_lt.mpr hquotient,
      UInt64.le_of_lt (UInt64.not_le.mp hle), UInt64.lt_iff_toNat_lt.mpr hlt⟩

theorem splits_of_factorizeRounds {pq : UInt64} {n round : Nat} {f : UInt64 × UInt64}
    {e e' : Entropy} (hpq : pq ≠ 0) (hrun : factorizeRounds pq n round e = (.ok f, e')) :
    f = (1, pq) ∨ Splits pq f.1 f.2 := by
  induction n generalizing round e with
  | zero =>
    obtain ⟨rfl, -⟩ := ok_pair_eq_iff.mp hrun
    exact .inl rfl
  | succ n ih =>
    obtain ⟨w, e₁, -, hrest⟩ := bind_eq_ok_iff.mp hrun
    obtain ⟨p?, e₂, hrho, hrest⟩ := bind_eq_ok_iff.mp hrest
    cases p? with
    | none => exact ih hrest
    | some p =>
      obtain ⟨rfl, -⟩ := ok_pair_eq_iff.mp hrest
      obtain ⟨hdvd, hone, hlt⟩ := proper_of_rho hpq hrho
      exact .inr (splits_of_dvd hdvd hone hlt)

/-- Half of an even word. -/
theorem splits_half {pq : UInt64} (hlarge : 4 ≤ pq) (heven : pq % 2 = 0) :
    Splits pq 2 (pq / 2) := by
  have hfour : 4 ≤ pq.toNat := UInt64.le_iff_toNat_le.mp hlarge
  have hmod : pq.toNat % 2 = 0 := by
    rw [← UInt64.toNat_inj, UInt64.toNat_mod] at heven
    exact heven
  have hhalf : (pq / 2).toNat = pq.toNat / 2 := UInt64.toNat_div pq 2
  have htwo : (2 : UInt64).toNat = 2 := rfl
  refine ⟨?_, by decide, UInt64.le_iff_toNat_le.mpr ?_, UInt64.lt_iff_toNat_lt.mpr ?_⟩
  · rw [htwo]
    omega
  · omega
  · omega

/-- One and the word, or two factors that split it. -/
theorem splits_of_factorize {pq : UInt64} {f : UInt64 × UInt64} {e e' : Entropy}
    (hrun : factorize pq e = (.ok f, e')) : f = (1, pq) ∨ Splits pq f.1 f.2 := by
  unfold factorize at hrun
  split at hrun
  · obtain ⟨rfl, -⟩ := ok_pair_eq_iff.mp hrun
    exact .inl rfl
  · rename_i hlarge
    split at hrun
    · rename_i heven
      obtain ⟨rfl, -⟩ := ok_pair_eq_iff.mp hrun
      exact .inr (splits_half (UInt64.not_lt.mp hlarge) heven)
    · refine splits_of_factorizeRounds ?_ hrun
      rintro rfl
      exact hlarge (by decide)

/-! ## 4. What is left to choose -/

/-- A prime is not split. -/
theorem Splits.not_prime {pq p q : UInt64} (h : Splits pq p q) : ¬ pq.toNat.Prime := by
  obtain ⟨hp, hq, -⟩ := h.toNat
  rw [← h.product, Nat.prime_mul_iff]
  rintro (⟨-, hone⟩ | ⟨-, hone⟩)
  · omega
  · omega

/-- A product of two primes is split in one way. -/
theorem Splits.eq_of_primes {pq p q : UInt64} {r s : Nat} (h : Splits pq p q) (hr : r.Prime)
    (hs : s.Prime) (hle : r ≤ s) (hpq : pq.toNat = r * s) : p.toNat = r ∧ q.toNat = s := by
  obtain ⟨hp, hq, -⟩ := h.toNat
  have hproduct : p.toNat * q.toNat = r * s := h.product.trans hpq
  rcases hr.dvd_mul.mp (Dvd.intro s hproduct.symm) with ⟨k, hk⟩ | ⟨k, hk⟩
  · have hks : k * q.toNat = s := by
      refine Nat.eq_of_mul_eq_mul_left hr.pos ?_
      rw [← hproduct, hk, Nat.mul_assoc]
    rw [← hks, Nat.prime_mul_iff] at hs
    obtain rfl : k = 1 := by omega
    omega
  · have hks : p.toNat * k = s := by
      refine Nat.eq_of_mul_eq_mul_left hr.pos ?_
      rw [← hproduct, hk, Nat.mul_left_comm]
    rw [← hks, Nat.prime_mul_iff] at hs
    obtain rfl : k = 1 := by omega
    omega

/-- **What `factorize` answers.**  Take any word and any tape on which no draw stalls.

* Nothing that an operation needs is missing, whatever would mark the place.
* There is an answer: two words whose product is the word, in order unless the word is zero, and
  either the first one is one, or it is more and the second one is less than the word.
* For a prime the answer is that there are no factors, an even word from four on has some, and for
  a product of two primes it is either these primes or that there are none. -/
theorem factorize_splits {pq : UInt64} {e : Entropy}
    (hends : (factorize pq e).1 ≠ .error .drawStalled) :
    (∀ mark, Checked.factorize mark pq e = factorize pq e) ∧
    ∃ p q e', factorize pq e = (.ok (p, q), e') ∧
      p.toNat * q.toNat = pq.toNat ∧ (0 < pq → p ≤ q) ∧ (p = 1 ∨ 1 < p ∧ q < pq) ∧
      (pq.toNat.Prime → p = 1 ∧ q = pq) ∧
      (4 ≤ pq → pq % 2 = 0 → 1 < p) ∧
      ∀ r s : Nat, r.Prime → s.Prime → r ≤ s → pq.toNat = r * s →
        p.toNat = r ∧ q.toNat = s ∨ p = 1 ∧ q = pq := by
  refine ⟨fun mark => by rw [Checked.factorize_eq], ?_⟩
  obtain ⟨⟨p, q⟩, e', hrun⟩ := (steady_factorize pq).exists_ok hends
  refine ⟨p, q, e', hrun, ?_⟩
  have heven : 4 ≤ pq → pq % 2 = 0 → 1 < p := by
    intro hlarge heven
    rw [factorize, if_neg (UInt64.not_lt.mpr hlarge), if_pos heven] at hrun
    obtain ⟨hpair, -⟩ := ok_pair_eq_iff.mp hrun
    obtain ⟨rfl, -⟩ := Prod.mk.inj hpair
    decide
  rcases splits_of_factorize hrun with hnone | hsplits
  · obtain ⟨rfl, rfl⟩ := Prod.mk.inj hnone
    refine ⟨Nat.one_mul _, fun hpos => ?_, .inl rfl, fun _ => ⟨rfl, rfl⟩, heven,
      fun _ _ _ _ _ _ => .inr ⟨rfl, rfl⟩⟩
    have := UInt64.lt_iff_toNat_lt.mp hpos
    exact UInt64.le_iff_toNat_le.mpr this
  · exact ⟨hsplits.product, fun _ => hsplits.le, .inr ⟨hsplits.one_lt, hsplits.lt⟩,
      fun hprime => absurd hprime hsplits.not_prime, heven,
      fun _ _ hr hs hle hpq => .inl (hsplits.eq_of_primes hr hs hle hpq)⟩

/-- On a tape of zero bytes 35 is given as five times seven, or as one times 35. -/
theorem factorize_splits_blank :
    (factorize 35 (.starting [])).1 ≠ .error .drawStalled ∧
      ∃ p q e', factorize 35 (.starting []) = (.ok (p, q), e') ∧
        (p.toNat = 5 ∧ q.toNat = 7 ∨ p = 1 ∧ q = 35) := by
  have hends : (factorize 35 (.starting [])).1 ≠ .error .drawStalled :=
    (steady_factorize 35).not_stalled (Entropy.fair_of_blank (fun _ => rfl) (by decide))
  obtain ⟨-, p, q, e', hrun, -, -, -, -, -, hprimes⟩ := factorize_splits hends
  exact ⟨hends, p, q, e', hrun, hprimes 5 7 (by decide) (by decide) (by decide) rfl⟩

end Mtproto.Number
