import Mathlib.Tactic.Common
import Mtproto.Proofs.ReaderPrograms

/-!
# A reader keeps its first failure

A `Reader` stands at a place in a buffer, and after a failure nothing moves any more.  So a record
of many fields can be read field by field, and the outcome looked at once.

From one reader of a trace to the next there is a `Step`: nothing, a first failure, or some of the
remaining bytes.  What a step keeps is kept along a path of steps (`Path.pairwise`), and every trace
of a program is such a path (`Trace.path`).

* `first_failure_kept`: so in every run of every program the positions are in order, within one
  buffer, the first failure is the last change, and what is read after it is zero.
-/

namespace Mtproto.Wire

variable {α β : Type}

/-! ## 1. Steps -/

namespace Reader

/-- What a reader comes to: the same reader, or one with a first failure, or one that has read
more.  Without a failure only the remaining bytes can be read, and with one nothing. -/
inductive Step : Reader → Reader → Prop where
  | stays (r : Reader) : Step r r
  | fails {r : Reader} (h : r.failure = none) (e : DecodeError) :
      Step r { r with failure := some e }
  | reads {r : Reader} (h : r.failure = none) {n : Nat} (hn : n ≤ r.remaining) :
      Step r (r.advance n)

theorem step_fail (r : Reader) (e : DecodeError) : Step r (r.fail e) := by
  unfold fail
  cases hr : r.failure with
  | none => exact .fails hr e
  | some first => exact .stays r

theorem step_take? (r : Reader) (n : Nat) : Step r (Read.take? n r).2 := by
  unfold Read.take?
  cases hr : r.failure with
  | some first => exact .stays r
  | none =>
    simp only
    split
    · rename_i hn
      rw [List.length_take] at hn
      exact .reads hr (by unfold remaining; omega)
    · exact step_fail r _

/-- A blob that is found is not longer than the rest. -/
theorem step_blob (r : Reader) : Step r (Read.blob r).2 := by
  unfold Read.blob
  cases hr : r.failure with
  | some first => exact .stays r
  | none =>
    cases hblob : decodeBlob r.rest with
    | error e =>
      simp only
      exact step_fail r e
    | ok found =>
      obtain ⟨data, used⟩ := found
      simp only
      exact .reads hr (isBlob_of_decodeBlob hblob).1

/-- What stays the same on the way from one reader to a later one, and what only grows. -/
structure Precedes (r s : Reader) : Prop where
  buffer : s.buffer = r.buffer
  position : r.position ≤ s.position
  failure : ∀ e, r.failure = some e → s = r

theorem Precedes.refl (r : Reader) : Precedes r r :=
  ⟨rfl, Nat.le_refl _, fun _ _ => rfl⟩

theorem Precedes.trans {r s t : Reader} (hrs : Precedes r s) (hst : Precedes s t) :
    Precedes r t where
  buffer := hst.buffer.trans hrs.buffer
  position := Nat.le_trans hrs.position hst.position
  failure e he := by
    obtain rfl := hrs.failure e he
    exact hst.failure e he

theorem buffer_advance (r : Reader) (n : Nat) : (r.advance n).buffer = r.buffer := by
  simp [buffer, advance]

theorem position_advance {r : Reader} {n : Nat} (hn : n ≤ r.remaining) :
    (r.advance n).position = r.position + n := by
  unfold remaining at hn
  simp only [position, advance, List.length_append, List.length_reverse, List.length_take]
  omega

/-- **One step keeps the buffer and the first failure, and does not go back.** -/
theorem Step.precedes {r s : Reader} (h : Step r s) : Precedes r s := by
  cases h with
  | stays => exact .refl r
  | fails hr e =>
    refine ⟨rfl, Nat.le_refl _, ?_⟩
    intro first hfirst
    rw [hr] at hfirst
    cases hfirst
  | reads hr hn =>
    refine ⟨buffer_advance r _, ?_, ?_⟩
    · rw [position_advance hn]
      exact Nat.le_add_right _ _
    · intro first hfirst
      rw [hr] at hfirst
      cases hfirst

/-- A way from one reader to another, step by step. -/
inductive Path : Reader → List Reader → Reader → Prop where
  | nil (r : Reader) : Path r [] r
  | cons {r s t : Reader} {states : List Reader} : Step r s → Path s states t →
      Path r (s :: states) t

namespace Path

theorem append {r s t : Reader} {before after : List Reader} (hb : Path r before s)
    (ha : Path s after t) : Path r (before ++ after) t := by
  induction hb with
  | nil => exact ha
  | cons hstep _ ih => exact .cons hstep (ih ha)

theorem getLast? {r t : Reader} {states : List Reader} (h : Path r states t) :
    (r :: states).getLast? = some t := by
  induction h with
  | nil => rfl
  | cons _ _ ih => rw [List.getLast?_cons_cons, ih]

theorem precedes {r s t : Reader} {states : List Reader} (h : Path r states t)
    (hs : s ∈ r :: states) : Precedes r s := by
  induction h with
  | nil =>
    rw [List.mem_singleton.mp hs]
    exact .refl _
  | cons hstep _ ih =>
    rcases List.mem_cons.mp hs with rfl | hs
    · exact .refl _
    · exact hstep.precedes.trans (ih hs)

/-- **On the way every reader precedes those after it.** -/
theorem pairwise {r t : Reader} {states : List Reader} (h : Path r states t) :
    (r :: states).Pairwise Precedes := by
  induction h with
  | nil => exact List.pairwise_singleton _ _
  | cons hstep hpath ih =>
    refine List.pairwise_cons.mpr ⟨?_, ih⟩
    intro s hs
    exact hstep.precedes.trans (hpath.precedes hs)

theorem precedes_last {r s t : Reader} {states : List Reader} (h : Path r states t)
    (hs : s ∈ r :: states) : Precedes s t := by
  induction h generalizing s with
  | nil =>
    rw [List.mem_singleton.mp hs]
    exact .refl _
  | cons hstep _ ih =>
    rcases List.mem_cons.mp hs with rfl | hs
    · exact hstep.precedes.trans (ih List.mem_cons_self)
    · exact ih hs

end Path

theorem peekTag?_eq_none {r : Reader} {e : DecodeError} (h : r.failure = some e) :
    r.peekTag? = none := by
  unfold peekTag?
  rw [h]

theorem length_buffer (r : Reader) : r.buffer.length = r.position + r.remaining := by
  simp [buffer, position, remaining]

/-- A reader is at its end if its position is the length of its buffer. -/
theorem rest_eq_nil_iff (r : Reader) : r.rest = [] ↔ r.position = r.buffer.length := by
  rw [length_buffer, ← List.length_eq_zero_iff]
  unfold remaining
  omega

end Reader

/-- **A run goes from its start to its result, step by step.** -/
theorem Trace.path {m : Read α} {r : Reader} {states : List Reader} (h : Trace m r states) :
    Reader.Path r states (m r).2 := by
  induction h with
  | look f r => exact .nil r
  | fail e r => exact .cons (Reader.step_fail r e) (.nil _)
  | take n r => exact .cons (Reader.step_take? r n) (.nil _)
  | blob r => exact .cons (Reader.step_blob r) (.nil _)
  | bind _ _ ihm ihf => exact ihm.append ihf

/-! ## 2. Runs -/

/-- **A reader keeps its first failure.**  Reading bare values, and the fields of the families, is
done by programs.  Every run of a program has a trace, and whatever readers it lists:

* each of them is at a place of the same buffer, and none before one that comes earlier;
* after the first failure they are all the same, the next tag is not seen and all operations
  return their zero values;
* what the run leaves is the last of them, and finishes well if none of them has failed and it is
  at the end of the buffer. -/
theorem first_failure_kept :
    (∀ {α : Type} {m : Read α} {zero : α}, Record m zero → Program m) ∧
    (∀ tag, Program (HandshakeResponse.readFields tag) ∧
      Program (HandshakeRequest.readFields tag) ∧ Program (ServiceMessage.readFields tag)) ∧
    ∀ {α : Type} {m : Read α}, Program m → ∀ buffer : Bytes,
      (∃ states, Trace m (.ofBytes buffer) states) ∧
      ∀ states, Trace m (.ofBytes buffer) states →
        let visited := Reader.ofBytes buffer :: states
        let last := (m (.ofBytes buffer)).2
        (∀ r ∈ visited, r.consumed ++ r.rest = buffer ∧ r.position ≤ buffer.length) ∧
        visited.Pairwise (fun r s => r.position ≤ s.position ∧
          ∀ e, r.failure = some e → s.failure = some e ∧ s.position = r.position ∧ s = r) ∧
        (∀ r ∈ visited, ∀ e, r.failure = some e →
          r.peekTag? = none ∧ r.check = .error e ∧ r.finish = .error e ∧
            ∀ {β : Type} {op : Read β} {zero : β}, Operation op zero → op r = (zero, r)) ∧
        visited.getLast? = some last ∧
        (last.finish = .ok () ↔
          (∀ r ∈ visited, r.failure = none) ∧ last.position = buffer.length) := by
  refine ⟨Program.record, ?_, ?_⟩
  · intro tag
    exact ⟨.responseFields tag, .requestFields tag, .serviceFields tag⟩
  intro α m hm buffer
  refine ⟨hm.traced _, ?_⟩
  intro states htrace
  have hpath := htrace.path
  have hbuffer : ∀ r ∈ Reader.ofBytes buffer :: states, r.buffer = buffer :=
    fun r hr => (hpath.precedes hr).buffer
  refine ⟨?_, ?_, ?_, hpath.getLast?, ?_⟩
  · intro r hr
    refine ⟨hbuffer r hr, ?_⟩
    rw [← hbuffer r hr, Reader.length_buffer]
    exact Nat.le_add_right _ _
  · refine hpath.pairwise.imp ?_
    intro r s hrs
    refine ⟨hrs.position, ?_⟩
    intro e he
    obtain rfl := hrs.failure e he
    exact ⟨he, rfl, rfl⟩
  · intro r _ e he
    refine ⟨Reader.peekTag?_eq_none he, ?_, ?_, ?_⟩
    · rw [Reader.check, he]
    · rw [Reader.finish, he]
    · intro β op zero hop
      exact Idle.operation hop r e he
  · have hlast : (m (.ofBytes buffer)).2 ∈ Reader.ofBytes buffer :: states :=
      List.mem_of_getLast? hpath.getLast?
    rw [Reader.finish_eq_ok_iff, Reader.rest_eq_nil_iff, hbuffer _ hlast]
    refine and_congr_left fun _ => ⟨?_, fun h => h _ hlast⟩
    intro hnone r hr
    cases hfailure : r.failure with
    | none => rfl
    | some e =>
      rw [(hpath.precedes_last hr).failure e hfailure, hfailure] at hnone
      cases hnone

/-- A truth value that is none, and a word behind it that is not read any more. -/
theorem first_failure_kept_bool :
    let m : Read UInt32 := Read.bool >>= fun _ => Read.word32
    let start := Reader.ofBytes [0, 0, 0, 0, 1, 2, 3, 4]
    Program m ∧ m start = (0, { start.advance 4 with failure := some (.unknownConstructor 0) }) ∧
      ∃ states, Trace m start states ∧ (start :: states).getLast? = some (m start).2 := by
  intro m start
  have hprogram : Program m := (Program.primitive .bool).bind fun _ => .word32
  obtain ⟨⟨states, htrace⟩, hall⟩ := first_failure_kept.2.2 hprogram [0, 0, 0, 0, 1, 2, 3, 4]
  exact ⟨hprogram, by rfl, states, htrace, (hall states htrace).2.2.2.1⟩

end Mtproto.Wire
