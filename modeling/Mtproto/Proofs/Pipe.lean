import Mathlib.Data.List.Infix
import Mathlib.Tactic.Common
import Mtproto.Proofs.Act
import Mtproto.Proofs.Frames

/-!
# Frames across a pipe

One side writes frames into a pipe with `sendFrame`, the other reads frames out of it with
`receiveFrame`.  The pipe does not know of frames: the bytes arrive in pieces of any size, and may
end anywhere.

* `receiveFrame_eq`: reading from pieces does what `readFrame` does with the whole stream, so where
  the pieces are cut makes no difference.
* `readFrames_stream`: on the whole stream the argument is by induction on the frames.  A frame that
  has been written is read back and leaves the stream behind it (`readFrame_written`), and of a part
  of one only the end of the stream is seen (`readFrame_part`).
* `frames_cross_pipe`: for every list of frames, every way to cut the stream and every place where
  it ends.
* `code_above_limit`: the limit on the length of a frame is looked at before the frame is read, so
  where frames may be shorter than a word, an error code is refused too.
-/

namespace Mtproto.Transport

open Wire

/-! ## 1. Both ends -/

/-- Writing, into the bytes written so far. -/
abbrev Sender := ExceptT Error (StateM Bytes)

/-- Write all of some bytes. -/
def sendAll (bs : Bytes) : Sender Unit :=
  modify (· ++ bs)

/-- Write a frame: its length and then itself. -/
def sendFrame (frame : Bytes) : Sender Unit := do
  let header ← ofExcept (frameHeader frame.length)
  sendAll header
  sendAll frame

/-- What writing some frames answers, and what has been written then. -/
def sent (frames : List Bytes) : Except Error Unit × Bytes :=
  frames.forM sendFrame []

/-- Reading, from pieces in the order of their arrival.  The stream ends behind the last one. -/
abbrev Receiver := ExceptT Error (StateM (List Bytes))

/-- Fill a buffer of `size` bytes from one piece after the other. -/
def fill : (size : Nat) → List Bytes → Bytes × List Bytes
  | _, [] => ([], [])
  | size, piece :: pieces =>
    if size ≤ piece.length then (piece.take size, piece.drop size :: pieces)
    else
      let (bs, rest) := fill (size - piece.length) pieces
      (piece ++ bs, rest)

/-- Read so many bytes; there are fewer only if the stream has ended. -/
def receiveSome (size : Nat) : Receiver Bytes :=
  fun pieces => (.ok (fill size pieces).1, (fill size pieces).2)

/-- Read so many bytes and no fewer. -/
def receiveExact (size : Nat) : Receiver Bytes := do
  let bs ← receiveSome size
  if bs.length < size then throw .connectionClosed
  return bs

/-- Read the body of a frame of so many words. -/
def receiveBody (limit words : Nat) : Receiver (Option Bytes) := do
  let length := words * 4
  if limit < length then throw (.transport (.exceedsLimit length limit))
  let frame ← receiveExact length
  if length = 4 then throw (.transport (.serverCode (UInt32.ofNat (Bytes.ofLE frame)).toInt32))
  return some frame

/-- Read the next frame, or `none` at the end of the stream. -/
def receiveFrame (limit : Nat) : Receiver (Option Bytes) := do
  match ← receiveSome 1 with
  | [] => return none
  | b :: _ =>
    if b < longLength then receiveBody limit b.toNat
    else if b = longLength then receiveBody limit (Bytes.ofLE (← receiveExact 3))
    else throw (.transport (.lengthByte b))

/-- The answers to reading `count` times. -/
def received (limit : Nat) : (count : Nat) → List Bytes → List (Except Error (Option Bytes))
  | 0, _ => []
  | count + 1, pieces =>
    (receiveFrame limit pieces).1 :: received limit count (receiveFrame limit pieces).2

/-! ## 2. Pieces make no difference -/

theorem fill_fst (size : Nat) (pieces : List Bytes) :
    (fill size pieces).1 = pieces.flatten.take size := by
  induction pieces generalizing size with
  | nil => simp [fill]
  | cons piece pieces ih =>
    rw [fill, List.flatten_cons]
    split
    · exact (List.take_append_of_le_length ‹_›).symm
    · rw [List.take_append, List.take_of_length_le (by omega), ← ih]

theorem flatten_fill (size : Nat) (pieces : List Bytes) :
    (fill size pieces).2.flatten = pieces.flatten.drop size := by
  induction pieces generalizing size with
  | nil => simp [fill]
  | cons piece pieces ih =>
    rw [fill, List.flatten_cons]
    split
    · exact (List.drop_append_of_le_length ‹_›).symm
    · rw [List.drop_append, List.drop_of_length_le (by omega), List.nil_append, ← ih]

theorem receiveExact_eq (size : Nat) (pieces : List Bytes) :
    receiveExact size pieces =
      (if (pieces.flatten.take size).length < size then .error .connectionClosed
        else .ok (pieces.flatten.take size), (fill size pieces).2) := by
  rw [receiveExact, run_bind, ← fill_fst]
  simp only [receiveSome]
  split <;> rfl

/-- An answer that agrees with a scan of the whole stream, and leaves what the scan leaves. -/
def Agrees (r : Except Error (Option Bytes) × List Bytes) (scan : Scan) : Prop :=
  (r.1, r.2.flatten) = scan.answer

theorem receiveBody_agrees (limit words : Nat) (pieces : List Bytes) :
    Agrees (receiveBody limit words pieces) (scanBody limit words pieces.flatten) := by
  unfold receiveBody scanBody
  by_cases hlimit : limit < words * 4
  · simp only [if_pos hlimit]
    rfl
  · simp only [if_neg hlimit, run_bind, receiveExact_eq]
    by_cases hshort : (pieces.flatten.take (words * 4)).length < words * 4
    · have hrest : pieces.flatten.drop (words * 4) = [] := by
        rw [List.length_take] at hshort
        exact List.drop_eq_nil_of_le (by omega)
      rw [if_pos hshort, if_pos hshort]
      exact Prod.ext rfl ((flatten_fill _ _).trans hrest)
    · rw [if_neg hshort, if_neg hshort]
      by_cases hcode : words * 4 = 4
      · simp only [if_pos hcode]
        exact Prod.ext rfl (flatten_fill _ _)
      · simp only [if_neg hcode]
        exact Prod.ext rfl (flatten_fill _ _)

/-- **Where the pieces are cut makes no difference**: what a read of the pieces answers, and what
it leaves, is what `readFrame` says about the whole stream. -/
theorem receiveFrame_eq (limit : Nat) (pieces : List Bytes) :
    ((receiveFrame limit pieces).1, (receiveFrame limit pieces).2.flatten) =
      readFrame limit pieces.flatten := by
  rw [readFrame_eq]
  change Agrees _ _
  rw [receiveFrame, run_bind]
  obtain ⟨first, rest, hfill⟩ : ∃ first rest, fill 1 pieces = (first, rest) := ⟨_, _, rfl⟩
  have hfirst := fill_fst 1 pieces
  have hrest := flatten_fill 1 pieces
  rw [hfill] at hfirst hrest
  simp only [receiveSome, hfill]
  cases hstream : pieces.flatten with
  | nil =>
    rw [hstream] at hfirst hrest
    subst hfirst
    exact Prod.ext rfl hrest
  | cons b stream =>
    rw [hstream, List.take_succ_cons, List.take_zero] at hfirst
    rw [hstream, List.drop_succ_cons, List.drop_zero] at hrest
    subst hfirst
    simp only [scanFrame]
    split
    · rw [← hrest]
      exact receiveBody_agrees limit _ rest
    · split
      · have hbehind := flatten_fill 3 rest
        rw [hrest] at hbehind
        rw [run_bind, receiveExact_eq, hrest]
        rcases stream with _ | ⟨x, _ | ⟨y, _ | ⟨z, stream⟩⟩⟩
        · exact Prod.ext rfl hbehind
        · exact Prod.ext rfl hbehind
        · exact Prod.ext rfl hbehind
        · change (fill 3 rest).2.flatten = stream at hbehind
          rw [← hbehind]
          exact receiveBody_agrees limit _ _
      · exact Prod.ext rfl hrest

/-! ## 3. A stream of frames -/

/-- A frame is written as a whole or not at all. -/
theorem sendFrame_eq (frame out : Bytes) :
    sendFrame frame out =
      match writeFrame frame with
      | .ok bs => (.ok (), out ++ bs)
      | .error e => (.error e, out) := by
  rw [sendFrame, run_bind, writeFrame]
  cases frameHeader frame.length with
  | ok header => exact Prod.ext rfl (List.append_assoc out header frame)
  | error e => rfl

/-- The frames as they are written. -/
def stream (frames : List Bytes) : Bytes :=
  (frames.map written).flatten

theorem sent_eq {frames : List Bytes}
    (h : ∀ frame ∈ frames, frame.length % 4 = 0 ∧ frame.length ≤ 4 * (2 ^ 24 - 1)) (out : Bytes) :
    frames.forM sendFrame out = (.ok (), out ++ stream frames) := by
  induction frames generalizing out with
  | nil =>
    rw [stream, List.map_nil, List.flatten_nil, List.append_nil]
    rfl
  | cons frame frames ih =>
    obtain ⟨hframe, hframes⟩ := List.forall_mem_cons.mp h
    change (sendFrame frame >>= fun _ => frames.forM sendFrame) out = _
    rw [run_bind, sendFrame_eq, writeFrame_eq_ok hframe.1 hframe.2]
    simp only [ih hframes]
    rw [stream, stream, List.map_cons, List.flatten_cons, List.append_assoc]

/-- Reading from the whole stream, again and again. -/
def readFrames (limit : Nat) : (count : Nat) → Bytes → List (Except Error (Option Bytes))
  | 0, _ => []
  | count + 1, bs => (readFrame limit bs).1 :: readFrames limit count (readFrame limit bs).2

theorem received_eq (limit count : Nat) (pieces : List Bytes) :
    received limit count pieces = readFrames limit count pieces.flatten := by
  induction count generalizing pieces with
  | zero => rfl
  | succ count ih =>
    rw [received, readFrames, ih, ← receiveFrame_eq]

/-- **Frames that have been written are read back one by one**, and then what stands behind
them. -/
theorem readFrames_stream {limit : Nat} {frames : List Bytes}
    (h : ∀ frame ∈ frames, Fits limit frame) (rest : Bytes) (count : Nat) :
    readFrames limit (frames.length + count) (stream frames ++ rest) =
      frames.map (.ok ∘ some) ++ readFrames limit count rest := by
  induction frames with
  | nil => rw [List.length_nil, Nat.zero_add]; rfl
  | cons frame frames ih =>
    obtain ⟨hframe, hframes⟩ := List.forall_mem_cons.mp h
    have hcount : (frame :: frames).length + count = (frames.length + count) + 1 := by
      rw [List.length_cons]
      omega
    rw [hcount, readFrames, stream, List.map_cons, List.flatten_cons, List.append_assoc,
      readFrame_written hframe]
    simp only [List.map_cons, List.cons_append]
    exact congrArg _ (ih hframes)

/-- Where a stream of frames is cut: behind some frames, and inside the next one if there is any
more. -/
theorem exists_cut (frames : List Bytes) {cut : Nat} (h : cut ≤ (stream frames).length) :
    ∃ before after k, frames = before ++ after ∧ cut = (stream before).length + k ∧
      (∀ next ∈ after.head?, k < (written next).length) ∧ (after = [] → k = 0) := by
  induction frames generalizing cut with
  | nil =>
    refine ⟨[], [], 0, rfl, ?_, ?_, ?_⟩
    · simpa [stream] using h
    · simp
    · simp
  | cons frame frames ih =>
    have hstream : stream (frame :: frames) = written frame ++ stream frames := by simp [stream]
    rw [hstream, List.length_append] at h
    by_cases hinside : cut < (written frame).length
    · refine ⟨[], frame :: frames, cut, rfl, ?_, ?_, ?_⟩
      · simp [stream]
      · simpa using hinside
      · simp
    · have hrest : cut - (written frame).length ≤ (stream frames).length := by omega
      obtain ⟨before, after, k, rfl, hcut, hnext, hend⟩ := ih hrest
      refine ⟨frame :: before, after, k, rfl, ?_, hnext, hend⟩
      have hbefore : stream (frame :: before) = written frame ++ stream before := by simp [stream]
      rw [hbefore, List.length_append]
      omega

/-- After how many bytes a frame ends, or none has begun yet. -/
def boundaries (frames : List Bytes) : List Nat :=
  frames.inits.map fun done => (sent done).2.length

theorem sent_of_fits {limit : Nat} {frames : List Bytes} (h : ∀ frame ∈ frames, Fits limit frame) :
    sent frames = (.ok (), stream frames) :=
  sent_eq (fun frame hframe => (h frame hframe).sendable) []

theorem stream_append (before after : List Bytes) :
    stream (before ++ after) = stream before ++ stream after := by
  simp [stream]

theorem length_stream_le {before frames : List Bytes} (h : before <+: frames) :
    (stream before).length ≤ (stream frames).length := by
  obtain ⟨after, rfl⟩ := h
  rw [stream_append, List.length_append]
  exact Nat.le_add_right _ _

/-- A cut is a boundary if it is right behind the frames that end before it. -/
theorem mem_boundaries_iff {limit : Nat} {before after : List Bytes} {k : Nat}
    (hfits : ∀ frame ∈ before ++ after, Fits limit frame)
    (hnext : ∀ next ∈ after.head?, k < (written next).length) :
    (stream before).length + k ∈ boundaries (before ++ after) ↔ k = 0 := by
  have hsent : ∀ {done : List Bytes}, done <+: before ++ after →
      (sent done).2.length = (stream done).length := by
    intro done hdone
    rw [sent_of_fits fun frame hframe => hfits frame (hdone.subset hframe)]
  rw [boundaries, List.mem_map]
  constructor
  · rintro ⟨done, hdone, hlength⟩
    rw [List.mem_inits] at hdone
    rw [hsent hdone] at hlength
    -- A boundary beyond `before` would lie behind the whole of the next frame.
    obtain hshort | ⟨more, rfl⟩ := List.prefix_or_prefix_of_prefix hdone (List.prefix_append _ _)
    · have := length_stream_le hshort
      omega
    · rw [stream_append, List.length_append] at hlength
      rw [List.prefix_append_right_inj] at hdone
      obtain ⟨rest, rfl⟩ := hdone
      cases more with
      | nil => simpa [stream] using hlength.symm
      | cons next more =>
        have hlong := hnext next rfl
        have hle : (written next).length ≤ (stream (next :: more)).length := by
          simp [stream]
        omega
  · rintro rfl
    exact ⟨before, (List.mem_inits _ _).mpr (List.prefix_append _ _),
      hsent (List.prefix_append _ _)⟩

/-- Some frames, cut anywhere: the reader returns those that are complete, and then says whether
the stream has ended between two frames. -/
theorem readFrames_take {limit : Nat} {frames : List Bytes} (h : ∀ frame ∈ frames, Fits limit frame)
    {cut : Nat} (hcut : cut ≤ (stream frames).length) :
    ∃ before after, frames = before ++ after ∧ (stream before).length ≤ cut ∧
      (∀ next ∈ after.head?, cut < (stream (before ++ [next])).length) ∧
      readFrames limit (before.length + 1) ((stream frames).take cut) =
        before.map (.ok ∘ some) ++
          [if cut ∈ boundaries frames then .ok none else .error .connectionClosed] := by
  obtain ⟨before, after, k, rfl, rfl, hnext, hend⟩ := exists_cut frames hcut
  obtain ⟨hbefore, hafter⟩ := List.forall_mem_append.mp h
  refine ⟨before, after, rfl, Nat.le_add_right _ _, ?_, ?_⟩
  · intro next hmem
    have hlong := hnext next hmem
    rw [stream_append, List.length_append]
    simpa [stream] using hlong
  · have hlast : (readFrame limit ((stream after).take k)).1 =
        if k = 0 then .ok none else .error .connectionClosed := by
      cases after with
      | nil =>
        rw [hend rfl]
        rfl
      | cons next more =>
        have hlong := hnext next rfl
        have htake : (stream (next :: more)).take k = (written next).take k := by
          simp only [stream, List.map_cons, List.flatten_cons]
          exact List.take_append_of_le_length hlong.le
        rw [htake, readFrame_part (hafter next List.mem_cons_self) hlong]
    rw [stream_append, List.take_length_add_append, readFrames_stream hbefore, readFrames,
      readFrames, hlast, if_congr (mem_boundaries_iff h hnext) rfl rfl]

/-- Some frames with a word among them: the reader returns the frames in front of it, and then
takes the word for an error code. -/
theorem readFrames_code {limit : Nat} {before : List Bytes} (h : ∀ frame ∈ before, Fits limit frame)
    {code : Bytes} (hcode : code.length = 4) (after : List Bytes) :
    readFrames limit (before.length + 1) (stream (before ++ code :: after)) =
      before.map (.ok ∘ some) ++
        [.error (.transport
          (if 4 ≤ limit then .serverCode (UInt32.ofNat (Bytes.ofLE code)).toInt32
            else .exceedsLimit 4 limit))] := by
  have hstream : stream (code :: after) = written code ++ stream after := by simp [stream]
  rw [stream_append, readFrames_stream h, readFrames, readFrames, hstream, readFrame_code hcode]

/-- **Frames cross a pipe.**  Frames that fit are all written.  However the stream is cut short,
and whatever the pieces it arrives in, the reader returns the frames that are complete, in order,
and then the end of the stream, or a closed connection if it has ended inside a frame.  A word
among the frames is an error code, of which a reader with a limit below four bytes says only that
it is too long.  What is not whole words, or too long for a header, is refused before a byte is
written. -/
theorem frames_cross_pipe (limit : Nat) :
    (∀ frames : List Bytes, (∀ frame ∈ frames, Fits limit frame) →
      (sent frames).1 = .ok () ∧
        ∀ cut ≤ (sent frames).2.length, ∀ pieces : List Bytes,
          pieces.flatten = (sent frames).2.take cut →
            ∃ before after, frames = before ++ after ∧ (sent before).2.length ≤ cut ∧
              (∀ next ∈ after.head?, cut < (sent (before ++ [next])).2.length) ∧
              received limit (before.length + 1) pieces =
                before.map (.ok ∘ some) ++
                  [if cut ∈ boundaries frames then .ok none else .error .connectionClosed]) ∧
    (∀ (before : List Bytes) (code : Bytes) (after : List Bytes),
      (∀ frame ∈ before ++ after, Fits limit frame) → code.length = 4 →
        (sent (before ++ code :: after)).1 = .ok () ∧
          ∀ pieces : List Bytes, pieces.flatten = (sent (before ++ code :: after)).2 →
            received limit (before.length + 1) pieces =
              before.map (.ok ∘ some) ++
                [.error (.transport
                  (if 4 ≤ limit then .serverCode (UInt32.ofNat (Bytes.ofLE code)).toInt32
                    else .exceedsLimit 4 limit))]) ∧
    ∀ frame : Bytes, frame.length % 4 ≠ 0 ∨ 4 * (2 ^ 24 - 1) < frame.length →
      ∀ out, ∃ e, sendFrame frame out = (.error e, out) := by
  refine ⟨?_, ?_, ?_⟩
  · intro frames hfits
    have hsent := sent_of_fits hfits
    refine ⟨by rw [hsent], ?_⟩
    intro cut hcut pieces hpieces
    rw [hsent] at hcut hpieces
    obtain ⟨before, after, rfl, hbefore, hnext, hread⟩ := readFrames_take hfits hcut
    refine ⟨before, after, rfl, ?_, ?_, ?_⟩
    · rwa [sent_of_fits (List.forall_mem_append.mp hfits).1]
    · intro next hmem
      have hsome : before ++ [next] ⊆ before ++ after := by
        refine List.append_subset.mpr ⟨List.subset_append_left _ _, ?_⟩
        simpa using Or.inr (List.mem_of_mem_head? hmem)
      rw [sent_of_fits fun frame hframe => hfits frame (hsome hframe)]
      exact hnext next hmem
    · rw [received_eq, hpieces, hread]
  · intro before code after hfits hcode
    have hsendable : ∀ frame ∈ before ++ code :: after,
        frame.length % 4 = 0 ∧ frame.length ≤ 4 * (2 ^ 24 - 1) := by
      intro frame hframe
      rw [List.mem_append, List.mem_cons] at hframe
      rcases hframe with hmem | rfl | hmem
      · exact (hfits frame (List.mem_append_left _ hmem)).sendable
      · rw [hcode]
        decide
      · exact (hfits frame (List.mem_append_right _ hmem)).sendable
    have hsent : sent (before ++ code :: after) = (.ok (), stream (before ++ code :: after)) :=
      sent_eq hsendable []
    refine ⟨by rw [hsent], ?_⟩
    intro pieces hpieces
    rw [hsent] at hpieces
    rw [received_eq, hpieces, readFrames_code (List.forall_mem_append.mp hfits).1 hcode]
  · intro frame hframe out
    obtain ⟨e, he⟩ := writeFrame_eq_error hframe
    exact ⟨e, by rw [sendFrame_eq, he]⟩

/-- Two words, cut short in the second one and arriving in two pieces. -/
theorem two_words_cross_pipe :
    Fits 8 [1, 2, 3, 4, 5, 6, 7, 8] ∧
      ∃ before after, [[1, 2, 3, 4, 5, 6, 7, 8]] = before ++ after ∧
        received 8 (before.length + 1) [[2, 1], [2, 3, 4, 5]] =
          before.map (.ok ∘ some) ++
            [if 6 ∈ boundaries [[1, 2, 3, 4, 5, 6, 7, 8]] then .ok none
              else .error .connectionClosed] := by
  have hfits : Fits 8 [1, 2, 3, 4, 5, 6, 7, 8] :=
    ⟨by decide, by decide, by decide, by decide⟩
  have hframes : ∀ frame ∈ [([1, 2, 3, 4, 5, 6, 7, 8] : Bytes)], Fits 8 frame := by
    simpa using hfits
  obtain ⟨before, after, hsplit, -, -, hread⟩ :=
    ((frames_cross_pipe 8).1 _ hframes).2 6 (by decide) [[2, 1], [2, 3, 4, 5]] (by decide)
  exact ⟨hfits, before, after, hsplit, hread⟩

/-- A reader that accepts less than a word does not report the error code behind a frame. -/
theorem code_above_limit :
    ¬ ∀ (limit : Nat) (before : List Bytes) (code : Bytes) (after : List Bytes),
      (∀ frame ∈ before ++ after, Fits limit frame) → code.length = 4 →
        ∀ pieces : List Bytes, pieces.flatten = (sent (before ++ code :: after)).2 →
          received limit (before.length + 1) pieces =
            before.map (.ok ∘ some) ++
              [.error (.transport (.serverCode (UInt32.ofNat (Bytes.ofLE code)).toInt32))] := by
  intro h
  have hfits : ∀ frame ∈ [([] : Bytes)] ++ [], Fits 3 frame := by
    intro frame hframe
    rw [List.mem_singleton.mp hframe]
    exact ⟨rfl, by decide, by decide, by decide⟩
  have hanswers := h 3 [[]] [0x6c, 0xfe, 0xff, 0xff] [] hfits rfl [[0, 1, 0x6c, 0xfe, 0xff, 0xff]]
    (by decide)
  have hexceeds : received 3 2 [[0, 1, 0x6c, 0xfe, 0xff, 0xff]] =
      [.ok (some []), .error (.transport (.exceedsLimit 4 3))] := by rfl
  rw [List.length_singleton, hexceeds] at hanswers
  simp at hanswers

end Mtproto.Transport
