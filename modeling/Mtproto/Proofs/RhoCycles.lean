import Mathlib.Data.Int.ModEq
import Mathlib.Order.Bounds.Basic
import Mathlib.Tactic.Common
import Mtproto.Proofs.Words

/-!
# Pollard's rho finds a cycle

`Number.rho` is one round of the factorization.  It walks along `x ↦ x² + c` modulo the number,
keeps one saved point, and at every step looks for a factor that the number has in common with the
distance between the two.  `Walk.advance` is a step and `Walk.save` replaces the saved point.

The points of the walk modulo a number follow a recurrence (`orbit`).  Modulo a factor of the number
they come back: from some point on, the sequence repeats itself after some number of steps, the
length of the cycle.  The round does not know the factor, and so not the cycle either.

* `Tracks`: after `t` steps the walk stands at the point `t` of the orbit, and the saved point is the
  one with the index `2 ^ k - 1`, for the largest `k` with `2 ^ k - 1 ≤ t` (`tracks_after`).
* `rho_meets_cycle`: once a saved point lies on the cycle, and the distance to the next point that
  is saved is not less than the length of the cycle, the round finds something within that length.
  The distances double, so both come true in the end, and the round does not go around for ever.
-/

namespace Mtproto

/-! ## 1. The points of a walk -/

namespace Number

/-- The point of a walk modulo `n` after `t` steps, with the constant `c` and from the point
`x₀`. -/
def orbit (n c x₀ : Nat) : Nat → Nat
  | 0 => x₀
  | t + 1 => (orbit n c x₀ t ^ 2 + c) % n

variable {n c x₀ r L M : Nat}

/-- Two points that are the same modulo a factor stay so. -/
theorem orbit_congr {a b : Nat} (hdvd : r ∣ n) (h : orbit n c x₀ a ≡ orbit n c x₀ b [MOD r])
    (i : Nat) : orbit n c x₀ (a + i) ≡ orbit n c x₀ (b + i) [MOD r] := by
  induction i with
  | zero => exact h
  | succ i ih =>
    have hreduce : ∀ m : Nat, m % n ≡ m [MOD r] := fun m => (Nat.mod_modEq m n).of_dvd hdvd
    calc orbit n c x₀ (a + (i + 1))
        ≡ orbit n c x₀ (a + i) ^ 2 + c [MOD r] := hreduce _
      _ ≡ orbit n c x₀ (b + i) ^ 2 + c [MOD r] := (ih.pow 2).add_right c
      _ ≡ orbit n c x₀ (b + (i + 1)) [MOD r] := (hreduce _).symm

/-- A walk that has closed modulo a factor goes round. -/
theorem orbit_cycle (hdvd : r ∣ n) (h : orbit n c x₀ (M + L) ≡ orbit n c x₀ M [MOD r]) :
    ∀ t, M ≤ t → orbit n c x₀ (t + L) ≡ orbit n c x₀ t [MOD r] := by
  intro t ht
  obtain ⟨i, rfl⟩ := Nat.exists_eq_add_of_le ht
  rw [Nat.add_right_comm]
  exact orbit_congr hdvd h i

end Number

/-! ## 2. The saved point -/

namespace Number

variable {n c x₀ : UInt64}

namespace Walk

/-- A walk that has not made a step. -/
def fresh (c x₀ : UInt64) : Walk :=
  { constant := c, point := x₀, saved := x₀, checkpoint := 1, steps := 0 }

/-- The walk after `t` iterations that found nothing. -/
def after (n : UInt64) (w : Walk) : (t : Nat) → Walk
  | 0 => w
  | t + 1 => ((w.after n t).advance n).save

/-- What the iteration behind the first `t` finds. -/
def found (n : UInt64) (w : Walk) (t : Nat) : UInt64 :=
  ((w.after n t).advance n).common n

end Walk

/-- The walk stands after `t` steps, and has saved its point `k` times.  Since then it has made
fewer steps than there are between the saved point and the next one to be saved. -/
structure Tracks (n c x₀ : UInt64) (t k : Nat) (w : Walk) : Prop where
  constant : w.constant = c
  point : w.point.toNat = orbit n.toNat c.toNat x₀.toNat t
  saved : w.saved.toNat = orbit n.toNat c.toNat x₀.toNat (2 ^ k - 1)
  checkpoint : w.checkpoint = 2 ^ k
  steps : w.steps + 2 ^ k = t + 1
  room : w.steps < 2 ^ k

theorem tracks_fresh (n c x₀ : UInt64) : Tracks n c x₀ 0 0 (.fresh c x₀) where
  constant := rfl
  point := rfl
  saved := rfl
  checkpoint := rfl
  steps := rfl
  room := Nat.one_pos

theorem toNat_walkStep (hn : n ≠ 0) (c x : UInt64) :
    (walkStep n c x).toNat = (x.toNat ^ 2 + c.toNat) % n.toNat := by
  obtain ⟨r, hr, hvalue⟩ := exists_mulAddMod x x c (UInt64.pos_iff_ne_zero.mpr hn)
  rw [mulAddMod_square c x hn] at hr
  rw [Except.ok.inj hr, hvalue, pow_two]

/-- The next point. -/
theorem Tracks.advance {t k : Nat} {w : Walk} (hn : n ≠ 0) (h : Tracks n c x₀ t k w) :
    (w.advance n).point.toNat = orbit n.toNat c.toNat x₀.toNat (t + 1) := by
  show (walkStep n w.constant w.point).toNat = _
  rw [toNat_walkStep hn, h.constant, h.point, orbit]

/-- One iteration: the walk saves its point if it has made as many steps as it has room for. -/
theorem Tracks.next {t k : Nat} {w : Walk} (hn : n ≠ 0) (h : Tracks n c x₀ t k w) :
    ∃ k', Tracks n c x₀ (t + 1) k' ((w.advance n).save) := by
  have hpoint := h.advance hn
  have hsteps := h.steps
  have hroom := h.room
  unfold Walk.save
  split
  · rename_i hsave
    have hfull : w.steps + 1 = 2 ^ k := hsave.trans h.checkpoint
    -- the room doubles with each point that is saved, so this one has the next index of its kind
    have hindex : 2 ^ (k + 1) - 1 = t + 1 := by
      rw [pow_succ]
      omega
    refine ⟨k + 1, h.constant, hpoint, ?_, ?_, ?_, Nat.two_pow_pos (k + 1)⟩
    · rw [hindex]
      exact hpoint
    · show w.checkpoint * 2 = 2 ^ (k + 1)
      rw [h.checkpoint, pow_succ]
    · show 0 + 2 ^ (k + 1) = t + 1 + 1
      have := Nat.two_pow_pos (k + 1)
      omega
  · rename_i hkeep
    have hfull : w.steps + 1 ≠ 2 ^ k := fun hfull => hkeep (hfull.trans h.checkpoint.symm)
    refine ⟨k, h.constant, hpoint, h.saved, h.checkpoint, ?_, ?_⟩
    · show w.steps + 1 + 2 ^ k = t + 1 + 1
      omega
    · show w.steps + 1 < 2 ^ k
      omega

/-- All iterations. -/
theorem tracks_after (hn : n ≠ 0) (c x₀ : UInt64) (t : Nat) :
    ∃ k, Tracks n c x₀ t k ((Walk.fresh c x₀).after n t) := by
  induction t with
  | zero => exact ⟨0, tracks_fresh n c x₀⟩
  | succ t ih =>
    obtain ⟨k, h⟩ := ih
    exact h.next hn

/-- The largest index of a point that is saved before iteration `t + 1`. -/
theorem isGreatest_of_bounds {t k : Nat} (hlo : 2 ^ k ≤ t + 1) (hhi : t + 1 < 2 ^ (k + 1)) :
    IsGreatest {j | 2 ^ j - 1 < t + 1} k := by
  have hpos := Nat.two_pow_pos
  constructor
  · have := hpos k
    show 2 ^ k - 1 < t + 1
    omega
  · intro j hj
    have hlt : 2 ^ j < 2 ^ (k + 1) := by
      have := hpos j
      have : 2 ^ j - 1 < t + 1 := hj
      omega
    exact Nat.lt_succ_iff.mp ((Nat.pow_lt_pow_iff_right (by decide)).mp hlt)

theorem Tracks.isGreatest {t k : Nat} {w : Walk} (h : Tracks n c x₀ t k w) :
    IsGreatest {j | 2 ^ j - 1 < t + 1} k := by
  have hsteps := h.steps
  have hroom := h.room
  refine isGreatest_of_bounds (by omega) ?_
  rw [pow_succ]
  omega

/-- What an iteration finds is common to the number and a distance of two points of the orbit. -/
theorem toNat_found (hn : n ≠ 0) {t k : Nat} (hk : IsGreatest {j | 2 ^ j - 1 < t + 1} k) :
    ((Walk.fresh c x₀).found n t).toNat =
      Int.gcd ((orbit n.toNat c.toNat x₀.toNat (t + 1) : Int)
        - orbit n.toNat c.toNat x₀.toNat (2 ^ k - 1)) n.toNat := by
  obtain ⟨k', h⟩ := tracks_after hn c x₀ t
  obtain rfl := h.isGreatest.unique hk
  have hsaved : (((Walk.fresh c x₀).after n t).advance n).saved.toNat
      = orbit n.toNat c.toNat x₀.toNat (2 ^ k' - 1) := h.saved
  rw [Walk.found, Walk.toNat_common, h.advance hn, hsaved]

/-! ## 3. The round -/

/-- As long as nothing is found, the round goes on. -/
theorem rho_after (hn : n ≠ 1) {budget t : Nat} {w : Walk} (ht : t ≤ budget)
    (hnothing : ∀ i < t, w.found n i = 1) :
    rho n budget w = rho n (budget - t) (w.after n t) := by
  induction t with
  | zero => rfl
  | succ t ih =>
    have hleft : budget - t = budget - (t + 1) + 1 := by omega
    have hone : ((w.after n t).advance n).common n = 1 := hnothing t (Nat.lt_succ_self t)
    rw [ih (by omega) fun i hi => hnothing i (Nat.lt_succ_of_lt hi), hleft, rho]
    simp only [hone]
    rw [if_neg hn.symm, if_neg fun h => h rfl, Walk.after]

/-- What ends the walk: the round starts another one, or has found a factor. -/
theorem rho_of_found (hn : n ≠ 1) {budget t : Nat} {w : Walk} (ht : t < budget)
    (hnothing : ∀ i < t, w.found n i = 1) (hfound : w.found n t ≠ 1) :
    rho n budget w = if w.found n t = n then Walk.start n >>= rho n (budget - (t + 1))
      else pure (some (w.found n t)) := by
  have hleft : budget - t = budget - (t + 1) + 1 := by omega
  rw [rho_after hn (Nat.le_of_lt ht) hnothing, hleft, rho]
  show (if w.found n t = n then _ else if w.found n t ≠ 1 then _ else _) = _
  rw [if_pos hfound]
  rfl

/-- A cycle that is short enough is seen: the saved point lies on it, and is saved again only after
one time round. -/
theorem found_ne_one (hn : n ≠ 0) {r L M k : Nat} (hr : 1 < r) (hdvd : r ∣ n.toNat) (hL : 1 ≤ L)
    (hcycle : ∀ t, M ≤ t → orbit n.toNat c.toNat x₀.toNat (t + L)
      ≡ orbit n.toNat c.toNat x₀.toNat t [MOD r])
    (hM : M ≤ 2 ^ k - 1) (hk : L ≤ 2 ^ k) :
    (Walk.fresh c x₀).found n (2 ^ k - 1 + L - 1) ≠ 1 := by
  have hindex : 2 ^ k - 1 + L - 1 + 1 = 2 ^ k - 1 + L := by omega
  have hgreatest : IsGreatest {j | 2 ^ j - 1 < 2 ^ k - 1 + L - 1 + 1} k := by
    have := Nat.two_pow_pos k
    refine isGreatest_of_bounds (by omega) ?_
    rw [pow_succ]
    omega
  intro hone
  have hgcd : ((Walk.fresh c x₀).found n (2 ^ k - 1 + L - 1)).toNat = _ :=
    toNat_found hn hgreatest
  rw [hone, hindex] at hgcd
  have hdistance := Nat.modEq_iff_dvd.mp (hcycle (2 ^ k - 1) hM).symm
  have hcommon := Int.dvd_gcd hdistance (Int.natCast_dvd_natCast.mpr hdvd)
  rw [← hgcd] at hcommon
  exact absurd (Nat.le_of_dvd Nat.one_pos hcommon) (Nat.not_le.mpr hr)

/-! ## 4. Where a round starts -/

/-- A word that is drawn between two bounds is between them. -/
theorem wordBetween_bounds {lo hi x : UInt64} {e e' : Entropy} (hrange : lo < hi)
    (h : Draw.wordBetween lo hi e = (.ok x, e')) : lo ≤ x ∧ x < hi := by
  obtain ⟨m, e₁, hm, hx⟩ := bind_eq_ok_iff.mp h
  obtain ⟨rfl, rfl⟩ := ok_pair_eq_iff.mp hx
  obtain ⟨e₂, hc⟩ := Draw.candidate_of_search hm
  obtain ⟨u, e₃, -, hu⟩ := bind_eq_ok_iff.mp hc
  obtain ⟨hword, -⟩ := ok_pair_eq_iff.mp hu
  have hsub : (hi - lo).toNat = hi.toNat - lo.toNat :=
    UInt64.toNat_sub_of_le hi lo (UInt64.le_of_lt hrange)
  have hlt := UInt64.lt_iff_toNat_lt.mp hrange
  -- the candidate is the high half of a product with the range
  have hhigh : u.toNat * (hi - lo).toNat / UInt64.size < (hi - lo).toNat := by
    refine Nat.div_lt_of_lt_mul (Nat.mul_lt_mul_of_pos_right u.toNat_lt ?_)
    omega
  have hm_lt : m.toNat < hi.toNat - lo.toNat := by
    split at hword
    · obtain rfl := Option.some.inj hword
      rw [UInt64.toNat_ofNat_of_lt' (hhigh.trans (hi - lo).toNat_lt)]
      omega
    · cases hword
  have hsum : (lo + m).toNat = lo.toNat + m.toNat := by
    have := hi.toNat_lt
    rw [UInt64.toNat_add, Nat.mod_eq_of_lt (by omega)]
  exact ⟨UInt64.le_iff_toNat_le.mpr (by omega), UInt64.lt_iff_toNat_lt.mpr (by omega)⟩

theorem fresh_of_start (hn : 1 < n) {w : Walk} {e e' : Entropy}
    (h : Walk.start n e = (.ok w, e')) :
    ∃ c x₀, w = .fresh c x₀ ∧ 1 ≤ c ∧ c < n ∧ x₀ < n := by
  have hpos : 0 < n := UInt64.lt_trans (by decide) hn
  obtain ⟨c, e₁, hc, h⟩ := bind_eq_ok_iff.mp h
  obtain ⟨x₀, e₂, hx, h⟩ := bind_eq_ok_iff.mp h
  obtain ⟨rfl, -⟩ := ok_pair_eq_iff.mp h
  obtain ⟨hlo, hhi⟩ := wordBetween_bounds hn hc
  exact ⟨c, x₀, rfl, hlo, hhi, (wordBetween_bounds hpos hx).2⟩

/-! ## 5. No cycle is missed -/

/-- **The walk of `rho` misses no cycle.**  Take any word but zero, and a walk modulo it from any
point and with any constant, as the start of a round draws them.  Suppose that from step `M` on the
walk repeats itself after `L` steps modulo a factor `r` of the word.

* At each iteration `t + 1` of the walk the saved point is the one with the index `2 ^ j - 1`, for
  the largest `j` with `2 ^ j - 1 < t + 1`, and the number is compared with the distance to it.
* If `M ≤ 2 ^ k - 1` and `L ≤ 2 ^ k`, and the budget is at least `2 ^ k - 1 + L`, then one of the
  first `2 ^ k - 1 + L` iterations finds something.  There the walk ends: the round returns what
  was found, or starts another walk if it was the number itself. -/
theorem rho_meets_cycle {n c x₀ : UInt64} {r L M k budget : Nat} (hn : n ≠ 0) (hr : 1 < r)
    (hdvd : r ∣ n.toNat) (hL : 1 ≤ L)
    (hcycle : ∀ t, M ≤ t → orbit n.toNat c.toNat x₀.toNat (t + L)
      ≡ orbit n.toNat c.toNat x₀.toNat t [MOD r])
    (hM : M ≤ 2 ^ k - 1) (hk : L ≤ 2 ^ k) (hbudget : 2 ^ k - 1 + L ≤ budget) :
    let x := orbit n.toNat c.toNat x₀.toNat
    let w := Walk.fresh c x₀
    (∀ e w₀ e', Walk.start n e = (.ok w₀, e') →
      ∃ c₀ p₀, w₀ = .fresh c₀ p₀ ∧ 1 ≤ c₀ ∧ c₀ < n ∧ p₀ < n) ∧
    (∀ t < budget, (∀ i < t, w.found n i = 1) →
      rho n budget w = rho n (budget - t) (w.after n t) ∧
      (w.after n t).point.toNat = x t ∧
      ∃ j, IsGreatest {j | 2 ^ j - 1 < t + 1} j ∧
        (w.after n t).saved.toNat = x (2 ^ j - 1) ∧
        (w.found n t).toNat = Int.gcd ((x (t + 1) : Int) - x (2 ^ j - 1)) n.toNat) ∧
    ∃ t, t + 1 ≤ 2 ^ k - 1 + L ∧ (∀ i < t, w.found n i = 1) ∧ w.found n t ≠ 1 ∧
      rho n budget w = if w.found n t = n then Walk.start n >>= rho n (budget - (t + 1))
        else pure (some (w.found n t)) := by
  intro x w
  have hlarge : 1 < n :=
    UInt64.lt_iff_toNat_lt.mpr (lt_of_lt_of_le hr (Nat.le_of_dvd (toNat_pos hn) hdvd))
  have hne_one : n ≠ 1 := fun h => absurd (h ▸ hlarge) (by decide)
  refine ⟨fun e w₀ e' => fresh_of_start hlarge, fun t ht hnothing => ?_, ?_⟩
  · obtain ⟨j, h⟩ := tracks_after hn c x₀ t
    exact ⟨rho_after hne_one (Nat.le_of_lt ht) hnothing, h.point, j, h.isGreatest, h.saved,
      toNat_found hn h.isGreatest⟩
  · have hsome : ∃ t, w.found n t ≠ 1 := ⟨_, found_ne_one hn hr hdvd hL hcycle hM hk⟩
    -- the first iteration that finds something is not behind the one that must
    have hfirst := Nat.find_min' hsome (found_ne_one hn hr hdvd hL hcycle hM hk)
    have hnothing : ∀ i < Nat.find hsome, w.found n i = 1 :=
      fun i hi => not_not.mp (Nat.find_min hsome hi)
    exact ⟨Nat.find hsome, by omega, hnothing, Nat.find_spec hsome,
      rho_of_found hne_one (by omega) hnothing (Nat.find_spec hsome)⟩

/-- Modulo five the walk from zero with the constant one comes back to zero after three steps, and
so it ends within six iterations. -/
theorem rho_meets_cycle_five :
    5 ∣ (35 : UInt64).toNat ∧ (∀ t, orbit 35 1 0 (t + 3) ≡ orbit 35 1 0 t [MOD 5]) ∧
      ∃ t < 6, (Walk.fresh 1 0).found 35 t ≠ 1 ∧ rho 35 (rhoBudget 0) (.fresh 1 0) =
        if (Walk.fresh 1 0).found 35 t = 35
          then Walk.start 35 >>= rho 35 (rhoBudget 0 - (t + 1))
          else pure (some ((Walk.fresh 1 0).found 35 t)) := by
  have hne : (35 : UInt64) ≠ 0 := by decide
  have hdvd : 5 ∣ (35 : UInt64).toNat := by decide
  have hcycle : ∀ t, 0 ≤ t → orbit (35 : UInt64).toNat (1 : UInt64).toNat (0 : UInt64).toNat (t + 3)
      ≡ orbit (35 : UInt64).toNat (1 : UInt64).toNat (0 : UInt64).toNat t [MOD 5] :=
    orbit_cycle hdvd (by decide)
  have hbudget : 2 ^ 2 - 1 + 3 ≤ rhoBudget 0 := by decide
  obtain ⟨-, -, t, ht, -, hfound, hrun⟩ := rho_meets_cycle hne (by decide) hdvd (by decide) hcycle
    (by decide) (by decide) hbudget
  exact ⟨hdvd, fun t => hcycle t (Nat.zero_le t), t, Nat.lt_of_succ_le ht, hfound, hrun⟩

end Number

end Mtproto
