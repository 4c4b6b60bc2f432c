import Mathlib.Tactic.Common
import Mtproto.Number.Factor
import Mtproto.Proofs.Primality

/-!
# Draws that come to an end

A draw moves the tape on, and there is one reason for which it cannot go on: a search by rejection,
`firstAccepted`, has looked at as many candidates as the tape has patience for.  Everything random
in the key exchange is drawn in this way: the bases of the test for primes, the start and the
constant of a walk.

A tape is *fair* (`Entropy.Fair`) if no search for a number of a range runs out of patience, at any
place, unless the range is empty.  `Draw.Steady` says of a draw that it moves the tape forward, and
that it only halts with `drawStalled`, and only on a tape that is not fair.

* `Steady.bind` and the lemmas beside it: steady draws can be put in sequence.
* `steady_factorize`, `steady_isProbablePrime`: the draws of the key exchange are steady, because
  the ranges that they draw from are not empty.
* `Entropy.fair_of_blank`: there are fair tapes; one of zero bytes is.
-/

namespace Mtproto

/-! ## 1. Fair tapes -/

/-- No search for a number of a range runs out of candidates, from any place on, unless the range
is empty. -/
structure Entropy.Fair (e : Entropy) : Prop where
  word : ∀ (n : Nat) (range : UInt64), range ≠ 0 →
    ∀ f, (Draw.firstAccepted (Draw.wordCandidate range) (e.skip n)).1 ≠ .error f
  natural : ∀ n range : Nat, 0 < range →
    ∀ f, (Draw.firstAccepted (Draw.naturalCandidate range) (e.skip n)).1 ≠ .error f

theorem Entropy.Fair.skip {e : Entropy} (h : e.Fair) (n : Nat) : (e.skip n).Fair where
  word m range hrange := by
    rw [Entropy.skip_skip]
    exact h.word (n + m) range hrange
  natural m range hrange := by
    rw [Entropy.skip_skip]
    exact h.natural (n + m) range hrange

/-- On a tape of zero bytes the first candidate is taken. -/
theorem Entropy.fair_of_blank {e : Entropy} (hblank : ∀ i, e.byte i = 0)
    (hpatience : e.patience ≠ 0) : e.Fair where
  word n range _ f h := by
    have hpeek : (e.skip n).peek 8 = List.replicate 8 0 :=
      Entropy.peek_of_blank fun i _ => hblank _
    have hword : Draw.word64 (e.skip n) = (.ok 0, (e.skip n).skip 8) := by
      rw [Draw.word64, run_bind_ok (Draw.run_octets 8 _)]
      simp only [hpeek]
      rfl
    have hcandidate : Draw.wordCandidate range (e.skip n) = (.ok (some 0), (e.skip n).skip 8) := by
      rw [Draw.wordCandidate, run_bind_ok hword]
      simp only [UInt64.toNat_zero, Nat.zero_mul, Nat.zero_mod, Nat.zero_le, if_true, Nat.zero_div]
      rfl
    rw [Draw.firstAccepted_of_candidate (e := e.skip n) hpatience hcandidate] at h
    cases h
  natural n range hrange f h := by
    have hbits : 1 ≤ Draw.bitLength range := by
      rw [Draw.bitLength, if_neg (Nat.pos_iff_ne_zero.mp hrange)]
      omega
    obtain ⟨words, hwords⟩ : ∃ words, (Draw.bitLength range + 31) / 32 = words + 1 :=
      ⟨(Draw.bitLength range + 31) / 32 - 1, by omega⟩
    have hdraw := Draw.naturalBetween_of_blank hrange hwords (e := e.skip n) hpatience
      fun i _ => hblank _
    rw [Draw.naturalBetween, run_bind, Nat.sub_zero] at hdraw
    rcases hrun : Draw.firstAccepted (Draw.naturalCandidate range) (e.skip n) with ⟨f' | a, t⟩
    · rw [hrun] at hdraw
      cases hdraw
    · rw [hrun] at h
      cases h

namespace Draw

/-- What a draw does to the tape, and why it may halt. -/
structure Steady {α : Type} (d : Draw α) : Prop where
  moves : ∀ e, ∃ n, (d e).2 = e.skip n
  stalls : ∀ e f, (d e).1 = .error f → f = .drawStalled ∧ ¬ e.Fair

variable {α β : Type}

theorem Steady.pure (a : α) : Steady (pure a : Draw α) where
  moves e := ⟨0, rfl⟩
  stalls e f h := by cases h

/-- Two draws in a row move the tape on twice. -/
theorem Steady.bind {d : Draw α} {k : α → Draw β} (hd : Steady d)
    (hk : ∀ a e e', d e = (.ok a, e') → Steady (k a)) : Steady (d >>= k) where
  moves e := by
    obtain ⟨m, hm⟩ := hd.moves e
    rw [run_bind]
    rcases hrun : d e with ⟨f | a, e'⟩
    all_goals
      rw [hrun] at hm
      obtain rfl : e' = e.skip m := hm
    · exact ⟨m, rfl⟩
    · obtain ⟨n, hn⟩ := (hk a e _ hrun).moves (e.skip m)
      exact ⟨m + n, hn.trans (Entropy.skip_skip e m n)⟩
  stalls e f h := by
    obtain ⟨m, hm⟩ := hd.moves e
    have hstalls := hd.stalls e
    rw [run_bind] at h
    rcases hrun : d e with ⟨f' | a, e'⟩
    all_goals
      rw [hrun] at hm h hstalls
      obtain rfl : e' = e.skip m := hm
    · obtain rfl : f' = f := Except.error.inj h
      exact hstalls f' rfl
    · obtain ⟨rfl, hunfair⟩ := (hk a e _ hrun).stalls _ f h
      exact ⟨rfl, fun hfair => hunfair (hfair.skip m)⟩

/-- A steady draw gives a result, unless a search stalls. -/
theorem Steady.exists_ok {d : Draw α} (hd : Steady d) {e : Entropy}
    (h : (d e).1 ≠ .error .drawStalled) : ∃ a e', d e = (.ok a, e') := by
  have hstalls := hd.stalls e
  rcases hrun : d e with ⟨f | a, e'⟩
  · rw [hrun] at hstalls h
    exact absurd (congrArg Except.error (hstalls f rfl).1) h
  · exact ⟨a, e', rfl⟩

/-- On a fair tape no search stalls. -/
theorem Steady.not_stalled {d : Draw α} (hd : Steady d) {e : Entropy} (hfair : e.Fair) :
    (d e).1 ≠ .error .drawStalled :=
  fun h => (hd.stalls e _ h).2 hfair

theorem steady_octets (n : Nat) : Steady (octets n) where
  moves _ := ⟨n, rfl⟩
  stalls e f h := by cases h

theorem steady_bytes (n : Nat) : Steady (bytes n) :=
  (steady_octets n).bind fun _ _ _ _ => .pure _

theorem steady_word64 : Steady word64 :=
  (steady_octets 8).bind fun _ _ _ _ => .pure _

/-- A search moves the tape as its candidates do, and halts only where it stalls. -/
theorem run_search {c : Draw (Option α)} (hc : ∀ e, ∃ a? n, c e = (.ok a?, e.skip n))
    (patience : Nat) (e : Entropy) :
    (∃ n, (search c patience e).2 = e.skip n) ∧
      ∀ f, (search c patience e).1 = .error f → f = .drawStalled := by
  induction patience generalizing e with
  | zero =>
    refine ⟨⟨0, rfl⟩, ?_⟩
    rintro f ⟨⟩
    rfl
  | succ patience ih =>
    obtain ⟨a?, n, hrun⟩ := hc e
    rw [search, run_bind_ok hrun]
    cases a? with
    | some a =>
      refine ⟨⟨n, rfl⟩, ?_⟩
      rintro f ⟨⟩
    | none =>
      obtain ⟨⟨m, hm⟩, hstall⟩ := ih (e.skip n)
      exact ⟨⟨n + m, hm.trans (Entropy.skip_skip e n m)⟩, hstall⟩

/-- A search that a fair tape brings to an end. -/
theorem steady_firstAccepted {c : Draw (Option α)} (hc : ∀ e, ∃ a? n, c e = (.ok a?, e.skip n))
    (hfair : ∀ e : Entropy, e.Fair → ∀ f, (firstAccepted c e).1 ≠ .error f) :
    Steady (firstAccepted c) where
  moves e := (run_search hc e.patience e).1
  stalls e f h := ⟨(run_search hc e.patience e).2 f h, fun hfair' => hfair e hfair' f h⟩

/-- A word of a range that is not empty. -/
theorem steady_wordBetween {lo hi : UInt64} (h : lo < hi) : Steady (wordBetween lo hi) := by
  have hrange : hi - lo ≠ 0 := by
    intro hzero
    have hsub := UInt64.toNat_sub_of_le hi lo (UInt64.le_of_lt h)
    rw [hzero] at hsub
    have hlt := UInt64.lt_iff_toNat_lt.mp h
    simp at hsub
    omega
  have hcandidate : ∀ e, ∃ a? n, wordCandidate (hi - lo) e = (.ok a?, e.skip n) :=
    fun e => ⟨_, 8, rfl⟩
  have hsearch : Steady (firstAccepted (wordCandidate (hi - lo))) :=
    steady_firstAccepted hcandidate fun e hfair => hfair.word 0 (hi - lo) hrange
  exact hsearch.bind fun _ _ _ _ => .pure _

/-- A number of a range that is not empty. -/
theorem steady_naturalBetween {lo hi : Nat} (h : lo < hi) : Steady (naturalBetween lo hi) := by
  have hcandidate : ∀ e, ∃ a? n, naturalCandidate (hi - lo) e = (.ok a?, e.skip n) :=
    fun e => ⟨_, _, congrArg (Prod.mk _) (Entropy.skip_skip e _ 4)⟩
  have hsearch : Steady (firstAccepted (naturalCandidate (hi - lo))) :=
    steady_firstAccepted hcandidate fun e hfair => hfair.natural 0 (hi - lo) (by omega)
  exact hsearch.bind fun _ _ _ _ => .pure _

end Draw

/-! ## 2. Factorization -/

namespace Number

open Draw

theorem steady_start {n : UInt64} (h : 1 < n) : Steady (Walk.start n) := by
  have hpos : 0 < n := UInt64.lt_trans (by decide) h
  exact (steady_wordBetween h).bind fun _ _ _ _ =>
    (steady_wordBetween hpos).bind fun _ _ _ _ => .pure _

theorem steady_rho {n : UInt64} (h : 1 < n) (budget : Nat) (w : Walk) :
    Steady (rho n budget w) := by
  induction budget generalizing w with
  | zero => exact .pure none
  | succ budget ih =>
    unfold rho
    simp only
    split
    · exact (steady_start h).bind fun w' _ _ _ => ih w'
    · split
      · exact .pure _
      · exact ih _

theorem steady_factorizeRounds {pq : UInt64} (h : 1 < pq) (n round : Nat) :
    Steady (factorizeRounds pq n round) := by
  induction n generalizing round with
  | zero => exact .pure _
  | succ n ih =>
    refine (steady_start h).bind fun w _ _ _ => (steady_rho h _ w).bind fun p? _ _ _ => ?_
    cases p? with
    | some p => exact .pure _
    | none => exact ih (round + 1)

/-- A factorization draws until a walk has a factor; it halts only where a draw stalls. -/
theorem steady_factorize (pq : UInt64) : Steady (factorize pq) := by
  unfold factorize
  split
  · exact .pure _
  · rename_i hlarge
    have hone : 1 < pq := UInt64.lt_of_lt_of_le (by decide) (UInt64.not_lt.mp hlarge)
    split
    · exact .pure _
    · exact steady_factorizeRounds hone _ _

/-! ## 3. Testing for primes -/

/-- What the small primes leave open is not small. -/
theorem five_le_of_trialDivision {n : Nat} (h : trialDivision smallPrimes n = none)
    (htwo : 2 ≤ n) : 5 ≤ n := by
  by_contra hlt
  have hsmall : n = 2 ∨ n = 3 ∨ n = 4 := by omega
  rcases hsmall with rfl | rfl | rfl <;> exact absurd h (by decide)

theorem steady_noWitness {n : Nat} (h : 5 ≤ n) (rounds : Nat) : Steady (noWitness n rounds) := by
  induction rounds with
  | zero => exact .pure true
  | succ rounds ih =>
    refine (steady_naturalBetween (by omega)).bind fun base _ _ _ => ?_
    split
    · exact ih
    · exact .pure false

theorem steady_isProbablePrime (n rounds : Nat) : Steady (isProbablePrime n rounds) := by
  unfold isProbablePrime
  split
  · exact .pure _
  · rename_i hopen
    split
    · exact .pure false
    · exact steady_noWitness (five_le_of_trialDivision hopen (by omega)) rounds

/-- What passes the test is at least two. -/
theorem two_le_of_isProbablePrime {n rounds : Nat} {e e' : Entropy}
    (h : isProbablePrime n rounds e = (.ok true, e')) : 2 ≤ n := by
  by_contra hlt
  have hsmall : n = 0 ∨ n = 1 := by omega
  rcases hsmall with rfl | rfl <;> cases h

end Number

end Mtproto
