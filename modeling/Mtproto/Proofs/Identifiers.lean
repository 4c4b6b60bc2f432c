import Mathlib.Algebra.Order.Ring.Nat
import Mathlib.Data.List.Chain
import Mathlib.Tactic.Common
import Mtproto.Message.Id

/-!
# Message identifiers in sequence

`MsgIdGenerator` gives out the identifiers of messages.  It is used in three ways (`Call`): its
offset is set, an identifier is taken for a given time, and one is taken for what our clock shows.
`issued` is what it gives out in the course of any calls.

* Every identifier is a multiple of four: the floor is one, and a step keeps that.
* Of the calls only the times matter that they take identifiers for, `moments`.  So `issued` is the
  chain of the numbers of these times, `issued_eq`.
* A step goes up unless there is no room for four more.  A chain increases if and only if no number
  in it is so large that the steps which follow would pass the last multiple of four,
  `isChain_chain_iff`.

That number can be large at once.  A time of which the nanoseconds are no 64-bit number, in the past
as in the future, has the last identifier of all, and there is no room after it
(`not_room_of_not_hasNanos`).  So the identifiers do not increase for all clocks;
`issued_increasing_iff` says for which they do.
-/

namespace Mtproto.MsgIdGenerator

/-! ## 1. Uses of a generator -/

/-- A use of a generator. -/
inductive Call where
  | setTimeOffset (seconds : Int64)
  | nextAt (t : Instant)
  /-- An identifier for what our clock shows. -/
  | next (now : Instant)
deriving DecidableEq, Repr

/-- What a call gives, and the generator after it.  A fault gives nothing and changes nothing. -/
def call (g : MsgIdGenerator) : Call → Option UInt64 × MsgIdGenerator
  | .setTimeOffset seconds => (none, { g with timeOffset := seconds })
  | .nextAt t => (some (g.nextAt t).1, (g.nextAt t).2)
  | .next now =>
    match g.next now with
    | .ok (id, g) => (some id, g)
    | .error _ => (none, g)

/-- The generator after some calls. -/
def after (g : MsgIdGenerator) (calls : List Call) : MsgIdGenerator :=
  calls.foldl (fun g c => (g.call c).2) g

/-- The identifiers that some calls give. -/
def issued (g : MsgIdGenerator) : List Call → List UInt64
  | [] => []
  | c :: calls => (g.call c).1.toList ++ (g.call c).2.issued calls

/-- The times for which some calls take identifiers, when this is the offset before them. -/
def moments (offset : Int64) : List Call → List Instant
  | [] => []
  | .setTimeOffset seconds :: calls => moments seconds calls
  | .nextAt t :: calls => t :: moments offset calls
  | .next now :: calls => (now.shift? offset.toInt).toList ++ moments offset calls

/-- The identifiers for some times that have these numbers. -/
def chain (floor : UInt64) : List UInt64 → List UInt64
  | [] => []
  | id :: ids => max (floor + 4) id :: chain (max (floor + 4) id) ids

/-- The identifiers of a generator are the chain over the identifiers of its moments. -/
theorem issued_eq (g : MsgIdGenerator) (calls : List Call) :
    g.issued calls = chain g.floor ((moments g.timeOffset calls).map identifierAt) := by
  induction calls generalizing g with
  | nil => rfl
  | cons c calls ih =>
    rw [issued, ih]
    cases c with
    | setTimeOffset seconds => rfl
    | nextAt t => rfl
    | next now =>
      simp only [call, next, moments]
      cases now.shift? g.timeOffset.toInt with
      | none => rfl
      | some t => rfl

/-! ## 2. Multiples of four -/

/-- The last two binary places are zero. -/
def IsAligned (id : UInt64) : Prop := id.toNat % 4 = 0

instance (id : UInt64) : Decidable (IsAligned id) := by
  unfold IsAligned; infer_instance

theorem isAligned_and (n : UInt64) : IsAligned (n &&& ~~~3) := by
  have hmask : (~~~3 : UInt64).toNat % 2 ^ 2 = 0 := by decide
  have hand := Nat.and_mod_two_pow (a := n.toNat) (b := (~~~3 : UInt64).toNat) (n := 2)
  rw [IsAligned, UInt64.toNat_and]
  rwa [hmask, Nat.and_zero] at hand

theorem isAligned_identifierAt (t : Instant) : IsAligned (identifierAt t) := isAligned_and _

theorem isAligned_add_four {id : UInt64} (h : IsAligned id) : IsAligned (id + 4) := by
  unfold IsAligned at h ⊢
  rw [UInt64.toNat_add]
  change (id.toNat + 4) % 2 ^ 64 % 4 = 0
  omega

theorem toNat_max (a b : UInt64) : (max a b).toNat = max a.toNat b.toNat := by
  change (if a ≤ b then b else a).toNat = _
  simp only [UInt64.le_iff_toNat_le]
  split <;> omega

theorem isAligned_max {a b : UInt64} (ha : IsAligned a) (hb : IsAligned b) :
    IsAligned (max a b) := by
  unfold IsAligned at *
  rw [toNat_max]
  omega

/-- Identifiers are aligned if the moments and the floor are, also those that are raised. -/
theorem isAligned_of_mem_chain {floor : UInt64} {ids : List UInt64} (hfloor : IsAligned floor)
    (hids : ∀ id ∈ ids, IsAligned id) : ∀ id ∈ chain floor ids, IsAligned id := by
  induction ids generalizing floor with
  | nil => simp [chain]
  | cons id ids ih =>
    have hnext := isAligned_max (isAligned_add_four hfloor) (hids id List.mem_cons_self)
    rw [chain, List.forall_mem_cons]
    exact ⟨hnext, ih hnext fun b hb => hids b (List.mem_cons_of_mem id hb)⟩

/-! ## 3. Room to go up -/

/-- None of these numbers is so large that as many steps of four as there are numbers after it
would pass the end. -/
def Room (ids : List UInt64) : Prop :=
  ∀ before id rest, ids = before ++ id :: rest → id.toNat + 4 * rest.length < 2 ^ 64

theorem room_nil : Room [] := by
  intro before id rest h
  simp at h

/-- An identifier has room if it and as many steps of four as come after it are below the end. -/
theorem room_cons {id : UInt64} {ids : List UInt64} :
    Room (id :: ids) ↔ id.toNat + 4 * ids.length < 2 ^ 64 ∧ Room ids := by
  constructor
  · intro h
    exact ⟨h [] id ids rfl, fun before b rest hids => h (id :: before) b rest (by rw [hids]; rfl)⟩
  · rintro ⟨hid, hids⟩ (_ | ⟨a, before⟩) b rest h
    · cases h
      exact hid
    · cases h
      exact hids before b rest rfl

/-- A step up from a multiple of four: it is one unless the last of them has been reached. -/
theorem lt_max_iff {floor id : UInt64} (hfloor : IsAligned floor) (hid : IsAligned id) :
    floor < max (floor + 4) id ↔ floor.toNat + 4 < 2 ^ 64 := by
  have hlt := floor.toNat_lt
  have hlt' := id.toNat_lt
  unfold IsAligned at hfloor hid
  rw [UInt64.lt_iff_toNat_lt, toNat_max, UInt64.toNat_add]
  change floor.toNat < max ((floor.toNat + 4) % 2 ^ 64) id.toNat ↔ _
  omega

/-- **A chain goes up exactly if there is room.** -/
theorem isChain_chain_iff {floor : UInt64} {ids : List UInt64} (hfloor : IsAligned floor)
    (hids : ∀ id ∈ ids, IsAligned id) :
    (floor :: chain floor ids).IsChain (· < ·) ↔ Room (floor :: ids) := by
  -- The floor is the first number.  A step makes it the larger of two numbers, each of which then
  -- needs the room that it had needed before: the old floor has gone up by four, and there is one
  -- step less to come.
  induction ids generalizing floor with
  | nil =>
    have hlt := floor.toNat_lt
    simp [chain, room_cons, room_nil, hlt]
  | cons id ids ih =>
    have hid := hids id List.mem_cons_self
    have hids' := fun b hb => hids b (List.mem_cons_of_mem id hb)
    have hnext := isAligned_max (isAligned_add_four hfloor) hid
    rw [chain, List.isChain_cons_cons, ih hnext hids', lt_max_iff hfloor hid]
    simp only [room_cons, toNat_max, UInt64.toNat_add, List.length_cons]
    change _ ∧ max ((floor.toNat + 4) % 2 ^ 64) id.toNat + 4 * ids.length < 2 ^ 64 ∧ _ ↔ _
    constructor
    · rintro ⟨hstep, hroom, hrest⟩
      exact ⟨by omega, by omega, hrest⟩
    · rintro ⟨hstep, hroom, hrest⟩
      exact ⟨by omega, by omega, hrest⟩

/-! ## 4. All calls -/

/-- The floor is the identifier that was given out last. -/
theorem floor_call (g : MsgIdGenerator) (c : Call) :
    (g.call c).2.floor = (g.call c).1.getD g.floor := by
  cases c with
  | setTimeOffset seconds => rfl
  | nextAt t => rfl
  | next now =>
    simp only [call, next]
    cases now.shift? g.timeOffset.toInt with
    | none => rfl
    | some t => rfl

/-- The floor is the last identifier that has been given out. -/
theorem floor_after (g : MsgIdGenerator) (calls : List Call) :
    (g.after calls).floor = (g.issued calls).getLastD g.floor := by
  induction calls generalizing g with
  | nil => rfl
  | cons c calls ih =>
    have hstep := ih (g.call c).2
    rw [floor_call] at hstep
    rw [issued]
    cases hid : (g.call c).1 with
    | none => rwa [hid] at hstep
    | some id =>
      rw [hid] at hstep
      rwa [Option.toList_some, List.singleton_append, List.getLastD_cons]

theorem isAligned_of_mem_issued {g : MsgIdGenerator} (hg : IsAligned g.floor)
    (calls : List Call) : ∀ id ∈ g.issued calls, IsAligned id := by
  rw [issued_eq]
  refine isAligned_of_mem_chain hg fun id hid => ?_
  obtain ⟨t, -, rfl⟩ := List.mem_map.mp hid
  exact isAligned_identifierAt t

theorem isAligned_floor_after {g : MsgIdGenerator} (hg : IsAligned g.floor) (calls : List Call) :
    IsAligned (g.after calls).floor := by
  rw [floor_after]
  have hmem : (g.issued calls).getLastD g.floor ∈ g.floor :: g.issued calls :=
    List.getLastD_mem_cons
  rcases List.mem_cons.mp hmem with h | h
  · rwa [h]
  · exact isAligned_of_mem_issued hg calls _ h

/-- The nanoseconds of a time are a signed 64-bit number. -/
def HasNanos (t : Instant) : Prop :=
  Int64.minValue.toInt ≤ t.totalNanos ∧ t.totalNanos ≤ Int64.maxValue.toInt

/-- A time too early or too late for its nanoseconds has the last identifier of all. -/
theorem identifierAt_of_not_hasNanos {t : Instant} (h : ¬ HasNanos t) :
    identifierAt t = 18446744073709551612 := by
  have hclamped : clampedNanos t = Int64.maxValue.toInt := if_neg h
  rw [identifierAt, hclamped]
  decide +kernel

/-- After such a time there is no room. -/
theorem not_room_of_not_hasNanos {t : Instant} (h : ¬ HasNanos t) {before rest : List UInt64}
    (hrest : rest ≠ []) : ¬ Room (before ++ identifierAt t :: rest) := by
  intro hroom
  have hlarge := hroom before _ rest rfl
  have hpos := List.length_pos_iff.mpr hrest
  rw [identifierAt_of_not_hasNanos h] at hlarge
  change 18446744073709551612 + 4 * rest.length < 2 ^ 64 at hlarge
  omega

/-- **When the identifiers of a generator increase.**  Whatever a generator has been used for, all
that it gives out from then on are multiples of four.  They increase, and are greater than all
before, if and only if there is room for that: no time of which an identifier is taken, and not the
last identifier before, is so late that the calls after it pass the end of the numbers.  In
particular they only do if all times but the last one have nanoseconds, also those in the past. -/
theorem issued_increasing_iff (history calls : List Call) :
    let g := ({} : MsgIdGenerator).after history
    (∀ id ∈ g.issued calls, id.toNat % 4 = 0) ∧
      ((g.floor :: g.issued calls).Pairwise (· < ·) ↔
        Room (g.floor :: (moments g.timeOffset calls).map identifierAt)) ∧
      ((g.floor :: g.issued calls).Pairwise (· < ·) → ∀ before t rest,
        moments g.timeOffset calls = before ++ t :: rest → rest ≠ [] → HasNanos t) := by
  intro g
  have hg : IsAligned g.floor := isAligned_floor_after (g := {}) (by decide) history
  have hiff : (g.floor :: g.issued calls).Pairwise (· < ·) ↔
      Room (g.floor :: (moments g.timeOffset calls).map identifierAt) := by
    rw [← List.isChain_iff_pairwise, issued_eq, isChain_chain_iff hg]
    intro id hid
    obtain ⟨t, -, rfl⟩ := List.mem_map.mp hid
    exact isAligned_identifierAt t
  refine ⟨isAligned_of_mem_issued hg calls, hiff, fun hincreasing before t rest hmoments hrest => ?_⟩
  have hroom := hiff.mp hincreasing
  rw [hmoments, List.map_append, List.map_cons, ← List.cons_append] at hroom
  by_contra hnanos
  exact not_room_of_not_hasNanos hnanos (fun hnil => hrest (List.map_eq_nil_iff.mp hnil)) hroom

/-- A clock that stands in the year 1675 and is then put right, to a day in the year 2020: the
first identifier is the largest one, and the second is smaller. -/
theorem issued_decreasing :
    let calls := [Call.nextAt ⟨-9300000000, 0⟩, .nextAt ⟨1590000000, 0⟩]
    (∀ t ∈ moments 0 calls, t.InCalendar) ∧
      ({} : MsgIdGenerator).issued calls = [18446744073709551612, 6828998000640000000] ∧
      ¬ (({} : MsgIdGenerator).issued calls).Pairwise (· < ·) := by
  decide +kernel

end Mtproto.MsgIdGenerator
