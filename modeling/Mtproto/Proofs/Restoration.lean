import Mathlib.Tactic.Common
import Mtproto.Proofs.Offsets

/-!
# What a framer keeps when it takes up a state

`Framer.restore` takes up a stored state: an authorization key, or that there is none, and the
counter.  A framer that does so is meant to go on from that state, whatever has been done with it
before.  Four things decide what comes of a call: the key, the counter, the last identifier and the
offset of the clock.

A state with a key replaces all of them but the last identifier (`restore_some_congr`), because the
offset is installed together with the key.  A state without one replaces the key and the counter
only, and the offset that belonged to the earlier key stays (`restore_none_congr`).

* `Indistinguishable`: the same comes of two framers, with the same clock and the same tape.
* `indistinguishable_restore_iff`: two framers with one last identifier are told apart after they
  have taken up the same state exactly if it has no key and their offsets differ.  For two offsets
  so large that the calendar has no reading at either of them (`Instant.Beyond`), there is nothing
  to tell apart.
* `restore_keeps_distant_offset`: identifiers that stand still, because of an offset that stayed.
-/

namespace Mtproto

/-! ## 1. Offsets that no reading can be shifted by -/

/-- The calendar is shorter than that. -/
def Instant.Beyond (seconds : Int) : Prop :=
  lastSecond - firstSecond < seconds.natAbs

instance (seconds : Int) : Decidable (Instant.Beyond seconds) := by
  unfold Instant.Beyond
  infer_instance

theorem Instant.not_reaches_of_beyond {t : Instant} {seconds : Int} (ht : t.InCalendar)
    (h : Beyond seconds) : ¬ t.Reaches seconds := by
  obtain ⟨hfirst, hlast, -⟩ := ht
  simp only [Beyond, Reaches, firstSecond, lastSecond] at *
  omega

/-- The smaller and the larger one of two offsets are told apart at one end of the calendar, unless
both leave it at once. -/
theorem Instant.exists_separating_of_lt {a b : Int} (hlt : a < b) (h : ¬ (Beyond a ∧ Beyond b)) :
    ∃ t : Instant, t.InCalendar ∧ ¬ (t.Reaches a ↔ t.Reaches b) := by
  have hwhole : (0 : Nat) < 1000000000 := by decide
  by_cases hlate : 0 < b ∧ ¬ Beyond a
  · -- the last reading that `a` leaves inside
    refine ⟨⟨lastSecond - max 0 a, 0⟩, ⟨?_, ?_, Or.inl hwhole⟩, ?_⟩ <;>
      simp only [Beyond, Reaches, firstSecond, lastSecond] at * <;> omega
  · -- the first reading that `b` leaves inside
    refine ⟨⟨firstSecond - min 0 b, 0⟩, ⟨?_, ?_, Or.inl hwhole⟩, ?_⟩ <;>
      simp only [Beyond, Reaches, firstSecond, lastSecond] at * <;> omega

theorem Instant.exists_separating {a b : Int} (hne : a ≠ b) (h : ¬ (Beyond a ∧ Beyond b)) :
    ∃ t : Instant, t.InCalendar ∧ ¬ (t.Reaches a ↔ t.Reaches b) := by
  rcases Int.lt_or_gt_of_ne hne with hlt | hgt
  · exact exists_separating_of_lt hlt h
  · obtain ⟨t, ht, hdiffer⟩ := exists_separating_of_lt hgt fun hboth => h hboth.symm
    exact ⟨t, ht, fun hiff => hdiffer hiff.symm⟩

namespace Framer

/-! ## 2. Framers that give the same answers -/

/-- Whatever two framers are used for, with the same clock and the same tape, the same comes of
it. -/
def Indistinguishable (f f' : Framer) : Prop :=
  ∀ (clock : Nat → Instant), (∀ i, (clock i).InCalendar) → ∀ (calls : List Call) (e : Entropy),
    (run clock (calls.map .call) (f, e)).1 = (run clock (calls.map .call) (f', e)).1

theorem outcomes_cons (clock : Nat → Instant) (step : Step) (steps : List Step)
    (s : Framer × Entropy) :
    (run clock (step :: steps) s).1 = (perform (clock 0) step s).1 ::
      (run (fun i => clock (i + 1)) steps (perform (clock 0) step s).2).1 := rfl

/-- Framers that never find the time have nothing but their standing to answer from. -/
theorem indistinguishable_of_beyond {f f' : Framer} (hsame : f.standing = f'.standing)
    (hf : Instant.Beyond f.msgIds.timeOffset.toInt)
    (hf' : Instant.Beyond f'.msgIds.timeOffset.toInt) : Indistinguishable f f' := by
  intro clock hclock calls e
  -- A message halts before it has changed anything, and the other calls keep the offset.
  induction calls generalizing clock f f' with
  | nil => rfl
  | cons c calls ih =>
    have hlater : ∀ i, (clock (i + 1)).InCalendar := fun i => hclock (i + 1)
    obtain ⟨hauth, hseqNo⟩ := Standing.mk.inj hsame
    cases c with
    | format kind payload =>
      have hhalt : ∀ {g : Framer}, Instant.Beyond g.msgIds.timeOffset.toInt →
          perform (clock 0) (.call (.format kind payload)) (g, e) =
            (.error (.fault .instantOutOfRange), g, e) := by
        intro g hg
        rw [perform, run_bind,
          run_format_unreached (Instant.not_reaches_of_beyond (hclock 0) hg)]
      rw [List.map_cons, outcomes_cons, outcomes_cons, hhalt hf, hhalt hf']
      exact congrArg _ (ih hsame hf hf' _ hlater)
    | parse raw =>
      have hparse : f.parse raw = f'.parse raw := by
        simp only [parse, hauth]
      rw [List.map_cons, outcomes_cons, outcomes_cons]
      exact congrArg₂ List.cons (congrArg (fun r => Except.ok (Answer.parsed r)) hparse)
        (ih hsame hf hf' _ hlater)
    | setServerSalt salt =>
      have hnext : (f.setServerSalt salt).standing = (f'.setServerSalt salt).standing :=
        congrArg₂ Standing.mk (congrArg (Option.map _) hauth) hseqNo
      rw [List.map_cons, outcomes_cons, outcomes_cons]
      exact congrArg _ (ih hnext hf hf' _ hlater)

/-- Where the clock leaves the calendar for one of two framers only, a message tells them apart. -/
theorem not_indistinguishable {f f' : Framer} {now : Instant} (hnow : now.InCalendar)
    (h : ¬ (now.Reaches f.msgIds.timeOffset.toInt ↔ now.Reaches f'.msgIds.timeOffset.toInt)) :
    ¬ Indistinguishable f f' := by
  intro hsame
  -- a message of the key exchange, because that needs nothing but a time
  have hanswer : ∀ {g : Framer}, now.Reaches g.msgIds.timeOffset.toInt →
      ∃ answer, (perform now (.call (.format .keyExchange [])) (g, .starting [])).1 =
        .ok answer := by
    intro g hg
    obtain ⟨msgId, raw, s, hrun⟩ : ∃ msgId raw s,
        format now .keyExchange [] (g, .starting []) = (.ok (msgId, raw), s) :=
      exists_format hg (Or.inl rfl) (by decide)
    exact ⟨.formatted msgId raw, by rw [perform, run_bind_ok hrun]; rfl⟩
  have hhalt : ∀ {g : Framer}, ¬ now.Reaches g.msgIds.timeOffset.toInt →
      (perform now (.call (.format .keyExchange [])) (g, .starting [])).1 =
        .error (.fault .instantOutOfRange) := by
    intro g hg
    rw [perform, run_bind, run_format_unreached hg]
  have hfirst := List.head_eq_of_cons_eq
    (hsame (fun _ => now) (fun _ => hnow) [.format .keyExchange []] (.starting []))
  by_cases hf : now.Reaches f.msgIds.timeOffset.toInt
  · have hf' : ¬ now.Reaches f'.msgIds.timeOffset.toInt := fun hf' => h (iff_of_true hf hf')
    obtain ⟨answer, hok⟩ := hanswer hf
    cases hok.symm.trans (hfirst.trans (hhalt hf'))
  · have hf' : now.Reaches f'.msgIds.timeOffset.toInt := by
      by_contra hf'
      exact h (iff_of_false hf hf')
    obtain ⟨answer, hok⟩ := hanswer hf'
    cases (hhalt hf).symm.trans (hfirst.trans hok)

/-! ## 3. After a state has been taken up -/

/-- A state with a key leaves nothing of what was there before but the last identifier. -/
theorem restore_some_congr {f f' : Framer} (hfloor : f.msgIds.floor = f'.msgIds.floor)
    (auth : Authorization) (seqNo : UInt32) :
    f.restore (some auth) seqNo = f'.restore (some auth) seqNo := by
  simp only [restore, setAuth, hfloor]

/-- A state without a key leaves the offset as well. -/
theorem restore_none_congr {f f' : Framer} (hfloor : f.msgIds.floor = f'.msgIds.floor)
    (hoffset : f.msgIds.timeOffset = f'.msgIds.timeOffset) (seqNo : UInt32) :
    f.restore none seqNo = f'.restore none seqNo := by
  have hmsgIds : f.msgIds = f'.msgIds := by
    cases hf : f.msgIds
    cases hf' : f'.msgIds
    simp_all
  simp only [restore, hmsgIds]

/-- **What `restore` does not replace.**  Take two framers, do anything with each of them, so that
both have given out the same last identifier, and let both take up one state.  Nothing that they are
used for from then on tells them apart exactly if

* the state has a key, or
* the same offset was installed last in both, or
* no reading of the calendar can be shifted by either offset. -/
theorem indistinguishable_restore_iff {clock clock' : Nat → Instant} {steps steps' : List Step}
    {e e' : Entropy} {f f' : Framer} (hf : (run clock steps ({}, e)).2.1 = f)
    (hf' : (run clock' steps' ({}, e')).2.1 = f') (hfloor : f.msgIds.floor = f'.msgIds.floor)
    (auth : Option Authorization) (seqNo : UInt32) :
    Indistinguishable (f.restore auth seqNo) (f'.restore auth seqNo) ↔
      auth ≠ none ∨ offsetAfter 0 steps = offsetAfter 0 steps' ∨
      Instant.Beyond (offsetAfter 0 steps).toInt ∧
        Instant.Beyond (offsetAfter 0 steps').toInt := by
  have hoffset : f.msgIds.timeOffset = offsetAfter 0 steps := hf ▸ offset_run clock steps {} e
  have hoffset' : f'.msgIds.timeOffset = offsetAfter 0 steps' :=
    hf' ▸ offset_run clock' steps' {} e'
  rw [← hoffset, ← hoffset']
  cases auth with
  | some auth =>
    rw [restore_some_congr hfloor]
    exact iff_of_true (fun _ _ _ _ => rfl) (Or.inl (Option.some_ne_none auth))
  | none =>
    constructor
    · intro hsame
      refine Or.inr (or_iff_not_imp_left.mpr fun hne => ?_)
      -- readings at the ends of the calendar are enough to see the difference
      by_contra hbeyond
      obtain ⟨now, hnow, hdiffer⟩ :=
        Instant.exists_separating (fun h => hne (Int64.toInt_inj.mp h)) hbeyond
      have hapart : ¬ Indistinguishable (f.restore none seqNo) (f'.restore none seqNo) :=
        not_indistinguishable hnow hdiffer
      exact hapart hsame
    · rintro (habsurd | hsame | ⟨hbeyond, hbeyond'⟩)
      · exact absurd rfl habsurd
      · rw [restore_none_congr hfloor hsame]
        exact fun _ _ _ _ => rfl
      · exact indistinguishable_of_beyond rfl hbeyond hbeyond'

/-- A key whose offset takes our clock out of what nanoseconds can count, but not out of the
calendar. -/
def distantKey : Authorization := { remoteKey with timeOffset := 10000000000 }

/-- A framer that has had a key and a new one go on alike from a state with a key, but not from a
state without. -/
theorem indistinguishable_restore_distant :
    let f := (run (fun _ => ⟨1590000000, 0⟩) [.setAuth distantKey] ({}, .starting [])).2.1
    Indistinguishable (f.restore (some localKey) 4) (({} : Framer).restore (some localKey) 4) ∧
      ¬ Indistinguishable (f.restore none 0) (({} : Framer).restore none 0) := by
  intro f
  have hf : (run (fun _ => ⟨1590000000, 0⟩) [.setAuth distantKey] ({}, .starting [])).2.1 = f := rfl
  have hf' : (run (fun _ => ⟨1590000000, 0⟩) [] ({}, .starting [])).2.1 = ({} : Framer) := rfl
  have hiff := indistinguishable_restore_iff hf hf' rfl
  refine ⟨(hiff _ _).mpr (Or.inl (Option.some_ne_none _)), fun hsame => ?_⟩
  have hdecided : ¬ ((none : Option Authorization) ≠ none ∨
      offsetAfter 0 [.setAuth distantKey] = offsetAfter 0 [] ∨
      Instant.Beyond (offsetAfter 0 [.setAuth distantKey]).toInt ∧
        Instant.Beyond (offsetAfter 0 []).toInt) := by
    decide
  exact hdecided ((hiff _ _).mp hsame)

/-- The identifier of what has been formatted. -/
def Answer.msgId? : Except Halt Answer → Option UInt64
  | .ok (.formatted msgId _) => some msgId
  | .ok (.parsed _) | .ok .done | .error _ => none

/-- It is not true that framers go on alike from every state: the identifiers of one that has had a
key are stuck, on a clock that is right. -/
theorem restore_keeps_distant_offset :
    let clock : Nat → Instant := fun _ => ⟨1590000000, 0⟩
    let calls : List Call := [.format .keyExchange [1, 2, 3, 4], .format .keyExchange [1, 2, 3, 4]]
    let f := (run clock [.setAuth distantKey] ({}, .starting [])).2.1
    let ids := fun g : Framer =>
      (run clock (calls.map .call) (g.restore none 0, .starting [])).1.map Answer.msgId?
    f.msgIds.floor = ({} : Framer).msgIds.floor ∧
      ids f = [some 18446744073709551612, some 18446744073709551612] ∧
      ids {} = [some 6828998000640000000, some 6828998000640000004] := by
  decide +kernel

end Framer

end Mtproto
