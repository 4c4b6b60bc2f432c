import Mathlib.Data.List.Forall2
import Mathlib.Order.Bounds.Defs
import Mtproto.Proofs.Identifiers

/-!
# Message identifiers in closed form

How far do the identifiers of `MsgIdGenerator` run ahead of the clock?  Every call raises the floor
by four, and every time puts it at least at the number of that time.  So each number that has ever
been put in goes on growing by four with every call, and an identifier is the greatest of what they
have come to (`demands`): of the floor at the start and of the numbers of all times so far.

* `isGreatest_demands`: this holds while there is room, that is, while no number is so large that
  the calls after it would pass the end.
* `forall₂_chain_le`: that is as close to the clock as can be.  Whoever gives out increasing
  multiples of four, none below the number of its time, is nowhere below the generator.
* `issued_closed_form`: both, for a new generator and any times.
-/

namespace Mtproto.MsgIdGenerator

/-! ## 1. One step -/

/-- A step as one of numbers, if there is room for it. -/
theorem toNat_step {floor : UInt64} (h : floor.toNat + 4 < 2 ^ 64) (id : UInt64) :
    (max (floor + 4) id).toNat = max (floor.toNat + 4) id.toNat := by
  rw [toNat_max, UInt64.toNat_add]
  change max ((floor.toNat + 4) % 2 ^ 64) id.toNat = _
  rw [Nat.mod_eq_of_lt h]

/-- Room for some steps is room for the first one, and then for the others. -/
theorem Room.step {floor id : UInt64} {ids : List UInt64} (h : Room (floor :: id :: ids)) :
    floor.toNat + 4 < 2 ^ 64 ∧ Room (max (floor + 4) id :: ids) := by
  obtain ⟨hfloor, hids⟩ := room_cons.mp h
  obtain ⟨hid, hrest⟩ := room_cons.mp hids
  rw [List.length_cons] at hfloor
  have hstep : floor.toNat + 4 < 2 ^ 64 := by omega
  refine ⟨hstep, room_cons.mpr ⟨?_, hrest⟩⟩
  rw [toNat_step hstep]
  omega

/-- Numbers that all leave room for as many steps. -/
theorem room_of_forall {ids : List UInt64} {steps : Nat} (hlen : ids.length ≤ steps)
    (h : ∀ id ∈ ids, id.toNat + 4 * steps < 2 ^ 64) : Room ids := by
  rintro before id rest rfl
  have hid := h id (List.mem_append_right before List.mem_cons_self)
  rw [List.length_append, List.length_cons] at hlen
  omega

/-! ## 2. The closed form -/

/-- What has been put in up to a call, each with four more for every call since.  The calls are
counted from zero, and the floor is there before the first. -/
def demands (floor : UInt64) (ids : List UInt64) (k : Nat) : Set Nat :=
  {n | n = floor.toNat + 4 * (k + 1) ∨
    ∃ j ≤ k, ∃ id, ids[j]? = some id ∧ n = id.toNat + 4 * (k - j)}

/-- With one time more in front: the floor and its number come to the new floor. -/
theorem mem_demands_cons_succ {floor id : UInt64} {ids : List UInt64} {k n : Nat} :
    n ∈ demands floor (id :: ids) (k + 1) ↔
      n = floor.toNat + 4 + 4 * (k + 1) ∨ n = id.toNat + 4 * (k + 1) ∨
        ∃ j ≤ k, ∃ b, ids[j]? = some b ∧ n = b.toNat + 4 * (k - j) := by
  constructor
  · rintro (hn | ⟨_ | j, hj, b, hb, hn⟩)
    · exact Or.inl (by omega)
    · obtain rfl := Option.some.inj hb
      exact Or.inr (Or.inl (by omega))
    · exact Or.inr (Or.inr ⟨j, by omega, b, hb, by omega⟩)
  · rintro (hn | hn | ⟨j, hj, b, hb, hn⟩)
    · exact Or.inl (by omega)
    · exact Or.inr ⟨0, by omega, id, rfl, by omega⟩
    · exact Or.inr ⟨j + 1, by omega, b, hb, by omega⟩

/-- **An identifier is the greatest of the numbers that have been put in.** -/
theorem isGreatest_demands {floor : UInt64} {ids : List UInt64} (hroom : Room (floor :: ids))
    {k : Nat} {id : UInt64} (h : (chain floor ids)[k]? = some id) :
    IsGreatest (demands floor ids k) id.toNat := by
  induction ids generalizing floor k with
  | nil => cases h
  | cons first ids ih =>
    obtain ⟨hstep, hrest⟩ := hroom.step
    have hnext := toNat_step hstep first
    rw [chain] at h
    cases k with
    | zero =>
      obtain rfl := Option.some.inj h
      rw [hnext]
      constructor
      · rcases Nat.le_total first.toNat (floor.toNat + 4) with hle | hle
        · exact Or.inl (by omega)
        · exact Or.inr ⟨0, Nat.le_refl 0, first, rfl, by omega⟩
      · rintro n (hn | ⟨j, hj, b, hb, hn⟩)
        · omega
        · obtain rfl := Nat.le_zero.mp hj
          obtain rfl := Option.some.inj hb
          omega
    | succ k =>
      obtain ⟨hmem, hmax⟩ := ih hrest h
      constructor
      · rw [mem_demands_cons_succ]
        rcases hmem with hn | hlater
        · omega
        · exact Or.inr (Or.inr hlater)
      · intro n hn
        have hfloor := hmax (Or.inl rfl)
        rcases mem_demands_cons_succ.mp hn with hn | hn | hlater
        · omega
        · omega
        · exact hmax (Or.inr hlater)

theorem length_chain (floor : UInt64) (ids : List UInt64) :
    (chain floor ids).length = ids.length := by
  induction ids generalizing floor with
  | nil => rfl
  | cons id ids ih => rw [chain, List.length_cons, List.length_cons, ih]

/-! ## 3. As close as can be -/

/-- **No increasing multiples of four are below a chain**, if they start above its floor and are
not below the numbers of the times. -/
theorem forall₂_chain_le {floor : UInt64} {ids : List UInt64} (hroom : Room (floor :: ids))
    {start : Nat} {others : List Nat} (hstart : floor.toNat ≤ start)
    (hchain : (start :: others).IsChain (· < ·)) (hfour : ∀ n ∈ start :: others, n % 4 = 0)
    (hids : List.Forall₂ (fun id n => id.toNat ≤ n) ids others) :
    List.Forall₂ (fun id n => id.toNat ≤ n) (chain floor ids) others := by
  induction hids generalizing floor start with
  | nil => exact .nil
  | @cons id n ids others hid _ ih =>
    obtain ⟨hstep, hrest⟩ := hroom.step
    obtain ⟨hlt, htail⟩ := List.isChain_cons_cons.mp hchain
    have hle : (max (floor + 4) id).toNat ≤ n := by
      -- the next multiple of four above the start
      have h0 := hfour start List.mem_cons_self
      have h1 := hfour n (List.mem_cons_of_mem _ List.mem_cons_self)
      rw [toNat_step hstep]
      omega
    exact .cons hle (ih hrest hle htail fun m hm => hfour m (List.mem_cons_of_mem _ hm))

/-! ## 4. A new generator -/

theorem moments_nextAt (offset : Int64) (times : List Instant) :
    moments offset (times.map .nextAt) = times := by
  induction times with
  | nil => rfl
  | cons t times ih => rw [List.map_cons, moments, ih]

theorem issued_nextAt (g : MsgIdGenerator) (times : List Instant) :
    g.issued (times.map .nextAt) = chain g.floor (times.map identifierAt) := by
  rw [issued_eq, moments_nextAt]

/-- **Identifiers in closed form.**  A new generator is asked for identifiers for some times, none
of which is so late that as many steps of four pass the end.  Their numbers are multiples of four.
The identifier of a call, counted from zero, is the greatest of four for each call up to it and of
the numbers of the times so far, with four more for every call since.  And whatever increasing
multiples of four might have been given out instead, none below the number of its time: none of
them is below the generator's. -/
theorem issued_closed_form (offset : Int64) (times : List Instant)
    (hroom : ∀ t ∈ times, (identifierAt t).toNat + 4 * times.length < 2 ^ 64) :
    let ids := ({ timeOffset := offset } : MsgIdGenerator).issued (times.map .nextAt)
    (∀ t, (identifierAt t).toNat % 4 = 0) ∧ ids.length = times.length ∧
    (∀ k id, ids[k]? = some id →
      IsGreatest {n | n = 4 * (k + 1) ∨
        ∃ j ≤ k, ∃ t, times[j]? = some t ∧ n = (identifierAt t).toNat + 4 * (k - j)} id.toNat) ∧
    ∀ others : List Nat, (0 :: others).IsChain (· < ·) → (∀ n ∈ others, n % 4 = 0) →
      List.Forall₂ (fun t n => (identifierAt t).toNat ≤ n) times others →
      List.Forall₂ (fun id n => id.toNat ≤ n) ids others := by
  intro ids
  have hids : ids = chain 0 (times.map identifierAt) := issued_nextAt _ times
  have hroom0 : Room (0 :: times.map identifierAt) := by
    refine room_cons.mpr ⟨?_, room_of_forall (List.length_map _).le ?_⟩
    · cases times with
      | nil => decide
      | cons t times =>
        have ht := hroom t List.mem_cons_self
        rw [List.length_map, UInt64.toNat_zero]
        omega
    · intro id hid
      obtain ⟨t, ht, rfl⟩ := List.mem_map.mp hid
      exact hroom t ht
  rw [hids]
  refine ⟨isAligned_identifierAt, ?length, ?closed, ?least⟩
  case length => rw [length_chain, List.length_map]
  case closed =>
    intro k id hk
    have hgreatest := isGreatest_demands hroom0 hk
    have hset : demands 0 (times.map identifierAt) k = {n | n = 4 * (k + 1) ∨
        ∃ j ≤ k, ∃ t, times[j]? = some t ∧ n = (identifierAt t).toNat + 4 * (k - j)} := by
      ext n
      simp [demands, List.getElem?_map]
    rwa [hset] at hgreatest
  case least =>
    intro others hchain hfour hothers
    refine forall₂_chain_le hroom0 (Nat.le_refl 0) hchain ?_ (List.forall₂_map_left_iff.mpr hothers)
    exact List.forall_mem_cons.mpr ⟨rfl, hfour⟩

/-- A clock that goes back by a minute and stands still: the first time counts on. -/
theorem issued_closed_form_back :
    let times : List Instant := [⟨1590000060, 0⟩, ⟨1590000000, 0⟩, ⟨1590000000, 0⟩]
    (∀ t ∈ times, (identifierAt t).toNat + 4 * times.length < 2 ^ 64) ∧
      identifierAt ⟨1590000060, 0⟩ = 6828998258338037760 ∧
      (({} : MsgIdGenerator).issued (times.map .nextAt))[2]? = some 6828998258338037768 ∧
      IsGreatest {n | n = 4 * (2 + 1) ∨
        ∃ j ≤ 2, ∃ t, times[j]? = some t ∧ n = (identifierAt t).toNat + 4 * (2 - j)}
        6828998258338037768 := by
  intro times
  have hroom : ∀ t ∈ times, (identifierAt t).toNat + 4 * times.length < 2 ^ 64 := by
    decide +kernel
  have hid : (({} : MsgIdGenerator).issued (times.map .nextAt))[2]? =
      some 6828998258338037768 := by
    decide +kernel
  exact ⟨hroom, by decide +kernel, hid, (issued_closed_form 0 times hroom).2.2.1 2 _ hid⟩

end Mtproto.MsgIdGenerator
