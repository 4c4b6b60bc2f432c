import Mathlib.Tactic.Common
import Mtproto.Gzip.Member
import Mtproto.Proofs.Containers

/-!
# Inflating with a limit

`Gzip.unpack` inflates a member and gives the data only if they are not longer than a limit.
Whoever inflates with a limit stops somewhere in the output, and where depends on the limit.  The
output itself does not: every step appends to what has come out before (`step_extends`), so a run
with another stop takes the same steps, and either ends as the first one does or stops with a part
of its output that is too long already (`Completes.run`).

What a member holds can therefore be said without a limit (`Holds`).

* `unpack_of_holds`: with a limit it is the data, if they keep to it, and otherwise the refusal of
  longer data.
* `checkedUnpack_of_lt`: the limit plus one is formed on the way, which is a fault for the greatest
  word.
* `unpack_within`: how the results for two limits are related.
-/

namespace Mtproto.Gzip

namespace Inflater

/-! ## 1. Output only grows -/

/-- A reference copies bytes behind the output and changes none of it. -/
theorem copy_extends (out : Array UInt8) (distance n : Nat) :
    out.toList <+: (copy out distance n).toList := by
  induction n generalizing out with
  | zero => exact List.prefix_rfl
  | succ n ih =>
    refine List.IsPrefix.trans ?_ (ih _)
    rw [Array.toList_push]
    exact List.prefix_append _ _

theorem symbolStep_extends (bits : Bits) (out : Array UInt8) (literals distances : Code)
    (last : Bool) : out.toList <+: (symbolStep bits out literals distances last).1.toList := by
  unfold symbolStep
  split
  · exact List.prefix_rfl
  · split
    · rw [Array.toList_push]
      exact List.prefix_append _ _
    · split
      · exact List.prefix_rfl
      · split
        · exact List.prefix_rfl
        · exact copy_extends out _ _

theorem storedBlock_extends (bits : Bits) (out : Array UInt8) (last : Bool) :
    out.toList <+: (storedBlock bits out last).1.toList := by
  unfold storedBlock
  split
  · dsimp only
    split
    · exact List.prefix_rfl
    · split <;> simp
  · exact List.prefix_rfl

/-- Stored bytes are written behind the output; the header of another block writes nothing. -/
theorem headerStep_extends (bits : Bits) (out : Array UInt8) :
    out.toList <+: (headerStep bits out).1.toList := by
  unfold headerStep
  split
  · exact List.prefix_rfl
  · dsimp only
    split
    · exact storedBlock_extends _ _ _
    · exact List.prefix_rfl
    · split <;> exact List.prefix_rfl
    · exact List.prefix_rfl

/-- **A step appends to the output.** -/
theorem step_extends (s : Inflater) : s.out.toList <+: (step s).1.toList := by
  obtain ⟨bits, out, phase⟩ := s
  cases phase with
  | header => exact headerStep_extends bits out
  | symbol literals distances last => exact symbolStep_extends bits out literals distances last
  | finished => exact List.prefix_rfl

/-! ## 2. Steps in a row -/

/-- So many steps that go on. -/
inductive Leads : Nat → Inflater → Inflater → Prop
  | refl (s : Inflater) : Leads 0 s s
  | step {n : Nat} {s t : Inflater} {out : Array UInt8} {bits : Bits} {phase : Phase}
      (hstep : step s = (out, .ok (bits, phase))) (hrest : Leads n ⟨bits, out, phase⟩ t) :
      Leads (n + 1) s t

theorem Leads.trans {m n : Nat} {s t u : Inflater} (h : Leads m s t) (h' : Leads n t u) :
    Leads (n + m) s u := by
  induction h with
  | refl s => exact h'
  | step hstep _ ih => exact .step hstep (ih h')

/-- So the output of a run begins with the output it has started from. -/
theorem Leads.extends {n : Nat} {s t : Inflater} (h : Leads n s t) :
    s.out.toList <+: t.out.toList := by
  induction h with
  | refl s => exact List.prefix_rfl
  | @step n s t out bits phase hstep _ ih =>
    have hout := step_extends s
    rw [hstep] at hout
    exact hout.trans ih

theorem size_le_of_extends {a b : Array UInt8} (h : a.toList <+: b.toList) : a.size ≤ b.size := by
  simpa using h.length_le

/-- A run goes on as long as there is not more output than asked for. -/
theorem run_succ (stop fuel : Nat) (s : Inflater) :
    run stop (fuel + 1) s =
      if stop < s.out.size then (s.out, .stopped, [])
      else match step s with
        | (out, .error h) => (out, h, s.bits.rest)
        | (out, .ok (bits, phase)) => run stop fuel ⟨bits, out, phase⟩ := rfl

/-- Decoding from here comes to its end, with this output and these bytes behind it. -/
def Completes (fuel : Nat) (s : Inflater) (out : Array UInt8) (rest : Bytes) : Prop :=
  ∃ n t, n < fuel ∧ Leads n s t ∧ step t = (out, .error .complete) ∧ t.bits.rest = rest

theorem Completes.of_step {fuel : Nat} {s : Inflater} {out out' : Array UInt8} {rest : Bytes}
    {bits : Bits} {phase : Phase} (hstep : step s = (out', .ok (bits, phase)))
    (h : Completes fuel ⟨bits, out', phase⟩ out rest) : Completes (fuel + 1) s out rest := by
  obtain ⟨n, t, hn, hleads, hlast, hrest⟩ := h
  exact ⟨n + 1, t, by omega, .step hstep hleads, hlast, hrest⟩

/-- A run that has come to the end. -/
theorem completes_of_run {stop fuel : Nat} {s : Inflater} {out : Array UInt8} {rest : Bytes}
    (h : run stop fuel s = (out, .complete, rest)) : Completes fuel s out rest := by
  induction fuel generalizing s with
  | zero => cases h
  | succ fuel ih =>
    rw [run_succ] at h
    split at h
    · cases h
    · split at h
      · rename_i out' halt hstep
        cases h
        exact ⟨0, s, by omega, .refl s, hstep, rfl⟩
      · rename_i out' bits phase hstep
        exact .of_step hstep (ih h)

/-- **A run with any stop** comes to the same end, or stops with too long a part of the output. -/
theorem Completes.run {fuel : Nat} {s : Inflater} {out : Array UInt8} {rest : Bytes}
    (h : Completes fuel s out rest) (stop : Nat) :
    run stop fuel s = (out, .complete, rest) ∨
      ∃ part, run stop fuel s = (part, .stopped, []) ∧ stop < part.size ∧
        part.toList <+: out.toList := by
  obtain ⟨n, t, hn, hleads, hlast, rfl⟩ := h
  obtain ⟨fuel, rfl⟩ : ∃ k, fuel = k + 1 := ⟨fuel - 1, by omega⟩
  have hout : t.out.toList <+: out.toList := by
    have hout := step_extends t
    rwa [hlast] at hout
  induction hleads generalizing fuel with
  | refl s =>
    rw [run_succ]
    split
    · rename_i hstop
      exact Or.inr ⟨_, rfl, hstop, hout⟩
    · rw [hlast]
      exact Or.inl rfl
  | @step n s t out' bits phase hstep hleads ih =>
    obtain ⟨fuel, rfl⟩ : ∃ k, fuel = k + 1 := ⟨fuel - 1, by omega⟩
    rw [run_succ]
    split
    · rename_i hstop
      exact Or.inr ⟨_, rfl, hstop, (Leads.step hstep hleads).extends.trans hout⟩
    · rw [hstep]
      exact ih hlast fuel (by omega) hout

end Inflater

/-! ## 3. Members -/

/-- A member holds data: it has a header, decoding comes to its end, and the trailer agrees with
what has come out. -/
def Holds (packed data : Bytes) : Prop :=
  ∃ body trailer, dropHeader packed = some body ∧
    Inflater.Completes (8 * body.length + 2) ⟨{ rest := body }, #[], .header⟩ data.toArray trailer ∧
    trailerAgrees data trailer = true

/-- What has been unpacked with some limit is in the member. -/
theorem holds_of_unpack {packed data : Bytes} {limit : Nat} (h : unpack packed limit = .ok data) :
    Holds packed data := by
  unfold unpack at h
  split at h
  · cases h
  rename_i body hbody
  rcases hrun : inflate (limit + windowLength) body with ⟨out, halt, trailer⟩
  simp only [hrun] at h
  cases halt with
  | complete =>
    simp only [true_and] at h
    split at h
    · cases h
    split at h
    · rename_i hagrees
      cases h
      refine ⟨body, trailer, hbody, ?_, hagrees⟩
      rw [Array.toArray_toList]
      exact Inflater.completes_of_run hrun
    · cases h
  | damaged | truncated | stopped =>
    simp only [reduceCtorEq, false_and, if_false] at h
    split at h <;> cases h

/-- **What a member holds comes out of it within every limit that it keeps to**, and is refused
otherwise. -/
theorem unpack_of_holds {packed data : Bytes} (h : Holds packed data) (limit : Nat) :
    unpack packed limit =
      if data.length ≤ limit then .ok data else .error (.invalidValue (.inflatesPast limit)) := by
  obtain ⟨body, trailer, hbody, hcompletes, hagrees⟩ := h
  rw [unpack, hbody]
  rcases hcompletes.run (limit + windowLength) with hrun | ⟨part, hrun, hstop, hpart⟩
  · have hinflate : inflate (limit + windowLength) body = (data.toArray, .complete, trailer) := hrun
    by_cases hlimit : data.length ≤ limit
    · simp [hinflate, hlimit, hagrees]
    · simp [hinflate, hlimit, Nat.lt_of_not_le hlimit]
  · have hinflate : inflate (limit + windowLength) body = (part, .stopped, []) := hrun
    have hlong : part.size ≤ data.length := by simpa using Inflater.size_le_of_extends hpart
    have hexceeded : limit < part.size := by omega
    have hlimit : ¬ data.length ≤ limit := by omega
    simp [hinflate, hexceeded, hlimit]

/-- The one byte more that is asked for fits a word, unless the limit is the largest word. -/
theorem checkedUnpack_of_lt {packed : Bytes} {limit : Nat} (h : limit + 1 < UInt64.size) :
    checkedUnpack packed limit = .ok (unpack packed limit) :=
  if_neg (Nat.not_le.mpr h)

theorem unpack_of_checkedUnpack {packed : Bytes} {limit : Nat} {r : Except DecodeError Bytes}
    (h : checkedUnpack packed limit = .ok r) : unpack packed limit = r := by
  unfold checkedUnpack at h
  split at h
  · cases h
  · exact Except.ok.inj h

/-- **The limit of `unpack` does not change the data.**  What has come out within one limit keeps to
it, comes out within every limit that it keeps to, and is refused with every other. -/
theorem unpack_within {packed data : Bytes} {limit : Nat}
    (h : checkedUnpack packed limit = .ok (.ok data)) :
    data.length ≤ limit ∧ ∀ other, other + 1 < UInt64.size →
      (data.length ≤ other → checkedUnpack packed other = .ok (.ok data)) ∧
      (other < data.length →
        checkedUnpack packed other = .ok (.error (.invalidValue (.inflatesPast other)))) := by
  have hunpack := unpack_of_checkedUnpack h
  have hholds := holds_of_unpack hunpack
  refine ⟨ServiceMessage.length_le_of_unpack hunpack, fun other hother => ⟨fun hkeeps => ?_, fun hexceeds => ?_⟩⟩
  · rw [checkedUnpack_of_lt hother, unpack_of_holds hholds, if_pos hkeeps]
  · rw [checkedUnpack_of_lt hother, unpack_of_holds hholds, if_neg (Nat.not_le.mpr hexceeds)]

open ServiceMessage in
/-- Three stored bytes, with a limit of five, of three and of two. -/
theorem unpack_within_stored :
    checkedUnpack (storedMember [7, 8, 9]) 5 = .ok (.ok [7, 8, 9]) ∧
      checkedUnpack (storedMember [7, 8, 9]) 3 = .ok (.ok [7, 8, 9]) ∧
      checkedUnpack (storedMember [7, 8, 9]) 2 =
        .ok (.error (.invalidValue (.inflatesPast 2))) := by
  have hfive : checkedUnpack (storedMember [7, 8, 9]) 5 = .ok (.ok [7, 8, 9]) := by
    rw [checkedUnpack_of_lt (by decide), unpack_storedMember (by decide) (by decide)]
  obtain ⟨-, hothers⟩ := unpack_within hfive
  exact ⟨hfive, (hothers 3 (by decide)).1 (by decide), (hothers 2 (by decide)).2 (by decide)⟩

end Mtproto.Gzip
