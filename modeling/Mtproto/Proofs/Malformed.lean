import Mathlib.Tactic.Common
import Mtproto.Proofs.Handshake

/-!
# Which errors an answer of the server can have

An answer of the server is read field by field, and what is reported is the first failure.  There
are four kinds (`Malformed`): the bytes end too early, a blob starts with the byte that starts none,
no constructor has the tag, or bytes are left over.  In particular a number never overflows its
field, because the fields of an answer are as wide as the words that they are read into.

* `Reports`: a reader reports nothing but these.  It is closed under sequencing, so a record needs
  no more than its fields.
* `malformed_of_ofBoxedBytes`: so it is for the whole family of answers.  The module on challenges
  uses it to list the errors of a client that waits for one.
-/

namespace Mtproto.Wire

variable {α β : Type}

/-- What is reported of bytes that are not those of an answer. -/
inductive Malformed : DecodeError → Prop
  | unexpectedEof (needed remaining : Nat) : Malformed (.unexpectedEof needed remaining)
  | invalidLengthPrefix (byte : UInt8) : Malformed (.invalidLengthPrefix byte)
  | unknownConstructor (tag : UInt32) : Malformed (.unknownConstructor tag)
  | trailingBytes (count : Nat) : Malformed (.trailingBytes count)

/-- The failure of a reader, if it has one, is of these. -/
def Reader.Plain (r : Reader) : Prop :=
  ∀ e, r.failure = some e → Malformed e

/-- No other failure is recorded. -/
def Reports (m : Read α) : Prop :=
  ∀ r : Reader, r.Plain → (m r).2.Plain

namespace Reports

/-! ## 1. Operations -/

theorem look (f : Reader → α) : Reports fun r => (f r, r) := fun _ h => h

theorem pure (a : α) : Reports (Pure.pure a : Read α) := look fun _ => a

/-- What the first part reports it reports for both, since nothing is read after a failure. -/
theorem bind {m : Read α} {f : α → Read β} (hm : Reports m) (hf : ∀ a, Reports (f a)) :
    Reports (m >>= f) :=
  fun r h => hf (m r).1 (m r).2 (hm r h)

theorem map {m : Read α} (h : Reports m) (f : α → β) : Reports (do return f (← m)) :=
  h.bind fun _ => pure _

/-- The first failure stays, and another one is one of those that are allowed. -/
theorem plain_fail {r : Reader} {e : DecodeError} (h : r.Plain) (he : Malformed e) :
    (r.fail e).Plain := by
  unfold Reader.fail
  split
  · rintro e' ⟨⟩
    exact he
  · exact h

theorem fail {e : DecodeError} (he : Malformed e) : Reports (Read.fail e) :=
  fun _ h => plain_fail h he

theorem failed : Reports Read.failed := look Reader.failed

theorem take? (n : Nat) : Reports (Read.take? n) := by
  intro r h
  unfold Read.take?
  split
  · exact h
  · split
    · exact h
    · exact plain_fail h (.unexpectedEof _ _)

/-- What is wrong with a blob. -/
theorem malformed_of_decodeBlob {bs : Bytes} {e : DecodeError} (h : decodeBlob bs = .error e) :
    Malformed e := by
  have hbody : ∀ {header len : Nat}, decodeBlobBody bs header len = .error e → Malformed e := by
    intro header len hbody
    unfold decodeBlobBody at hbody
    simp only at hbody
    split at hbody
    · cases hbody
      exact .unexpectedEof _ _
    · cases hbody
  unfold decodeBlob at h
  split at h
  · cases h
    exact .unexpectedEof _ _
  · split at h
    · cases h
      exact .invalidLengthPrefix _
    · split at h
      · split at h
        · exact hbody h
        · cases h
          exact .unexpectedEof _ _
      · exact hbody h

theorem blob : Reports Read.blob := by
  intro r h
  unfold Read.blob
  split
  · exact h
  · cases hdecode : decodeBlob r.rest with
    | ok parts => exact h
    | error e => exact plain_fail h (malformed_of_decodeBlob hdecode)

theorem octets (n : Nat) : Reports (Read.octets n) := (take? n).map _

theorem uint {bits : Nat} (h : bits ∈ widths) : Reports (Read.uint bits) := by
  rw [Read.uint, if_pos h]
  exact (take? _).map _

theorem word32 : Reports Read.word32 := (uint (by decide)).map _

theorem word64 : Reports Read.word64 := (uint (by decide)).map _

/-- A loop reports what one of its rounds reports. -/
theorem items {item : Read α} (h : Reports item) (count : Nat) (acc : List α) :
    Reports (Read.items item count acc) := by
  induction count generalizing acc with
  | zero => exact pure _
  | succ count ih =>
    intro r hr
    rw [Read.items]
    simp only
    split
    · exact hr
    · exact ih _ _ (h r hr)

/-- A wrong tag, a count that is too high, or whatever the items report. -/
theorem vector {item : Read α} (h : Reports item) : Reports (Read.vector item) := by
  refine word32.bind fun tag => failed.bind fun b => ?_
  split
  · exact pure _
  · split
    · exact (fail (.unknownConstructor tag)).bind fun _ => pure _
    · refine word32.bind fun count => (look fun r => r).bind fun r => ?_
      simp only
      split
      · exact (fail (.unexpectedEof _ _)).bind fun _ => pure _
      · exact items h _ _

theorem boxed [Family α] (h : ∀ tag, Reports (Family.readFields (α := α) tag)) :
    Reports (Read.boxed α) := by
  refine word32.bind fun tag => failed.bind fun b => ?_
  split
  · exact pure _
  · refine (h tag).bind fun a? => ?_
    cases a? with
    | some a => exact failed.map _
    | none => exact (fail (.unknownConstructor tag)).bind fun _ => pure _

/-! ## 2. Answers -/

/-- Two nonces, and what comes behind them. -/
theorem nonces {f : Nonce → Nonce → Read α} (h : ∀ a b, Reports (f a b)) :
    Reports (do f (← Read.octets 16) (← Read.octets 16)) :=
  (octets 16).bind fun a => (octets 16).bind fun b => h a b

theorem dhGenAnswer : Reports (Bare.read (α := DhGenAnswer)) := nonces fun _ _ => (octets 16).map _

/-- The fields behind every tag of an answer, and a tag that is none of them. -/
theorem responseFields (tag : UInt32) : Reports (HandshakeResponse.readFields tag) := by
  have hresPq : Reports (Bare.read (α := ResPq)) :=
    nonces fun _ _ => blob.bind fun _ => (vector word64).map _
  have hparams : Reports (Bare.read (α := ServerDhParamsOk)) := nonces fun _ _ => blob.map _
  have hfail : Reports (Bare.read (α := ServerDhParamsFail)) :=
    nonces fun _ _ => (octets 16).map _
  unfold HandshakeResponse.readFields
  repeat' split
  · exact hresPq.map _
  · exact hparams.map _
  · exact hfail.map _
  · exact dhGenAnswer.map _
  · exact dhGenAnswer.map _
  · exact dhGenAnswer.map _
  · exact pure none

end Reports

/-- **What is reported of an answer**: it ends too early, has the wrong tag or a blob that starts
with the wrong byte, or goes on where it should end. -/
theorem malformed_of_ofBoxedBytes {payload : Bytes} {e : DecodeError}
    (h : ofBoxedBytes HandshakeResponse payload = .error e) : Malformed e := by
  have hread : (Read.boxed HandshakeResponse (.ofBytes payload)).2.Plain :=
    Reports.boxed Reports.responseFields _ fun _ h => by cases h
  unfold ofBoxedBytes at h
  rcases hrun : Read.boxed HandshakeResponse (.ofBytes payload) with ⟨response?, r⟩
  rw [hrun] at hread
  simp only [hrun] at h
  cases hfinish : r.finish with
  | error e' =>
    simp only [hfinish] at h
    cases h
    unfold Reader.finish at hfinish
    split at hfinish
    · split at hfinish
      · cases hfinish
      · cases hfinish
        exact .trailingBytes _
    · rename_i hfailure
      cases hfinish
      exact hread _ hfailure
  | ok _ =>
    simp only [hfinish] at h
    split at h
    · cases h
    · cases h
      exact .unknownConstructor _

end Mtproto.Wire
