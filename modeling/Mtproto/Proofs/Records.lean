import Mathlib.Data.List.TakeDrop
import Mathlib.Tactic.Common
import Mtproto.Proofs.Messages
import Mtproto.Proofs.ReaderPrograms

/-!
# Where a record ends

A record has no length in front of it, and the plaintext it travels in is padded.  So its reader has
to find the end by itself, although two of the things it does look at what is left of the buffer: a
blob is refused if it does not fit there, and a vector if its items cannot.

`Encoded` lists the records of the protocol with a reader each.

* `SelfDelimiting.record`: every record is self-delimiting, field by field.
* `DecidedBy`: a run hangs on the bytes it has read and on nothing else.  Other bytes may follow,
  and none of those that were read may be missing.
* `Encoded.self_delimited`: so it is for all records, and on every shorter string there is a
  failure.
-/

namespace Mtproto.Wire

variable {α : Type}

/-! ## 1. Records are self-delimiting -/

namespace SelfDelimiting

theorem map {β : Type} {m : Read α} (h : SelfDelimiting m) (f : α → β) :
    SelfDelimiting (do return f (← m)) :=
  bind h fun _ => pure _

theorem words : SelfDelimiting (Read.vector Read.word64) :=
  Canonical.words.selfDelimiting

/-- The two nonces that most messages begin with. -/
theorem nonces {f : Nonce → Nonce → Read α} (h : ∀ a b, SelfDelimiting (f a b)) :
    SelfDelimiting (do f (← Read.octets 16) (← Read.octets 16)) :=
  bind (octets 16) fun a => bind (octets 16) fun b => h a b

/-- **Every record is self-delimiting**, because its fields are. -/
theorem record {m : Read α} {zero : α} (h : Record m zero) : SelfDelimiting m := by
  cases h with
  | reqPq => exact (octets 16).map _
  | resPq => exact nonces fun _ _ => bind blob fun _ => words.map _
  | pqInnerData =>
    exact bind blob fun _ => bind blob fun _ => bind blob fun _ => nonces fun _ _ =>
      (octets 32).map _
  | reqDhParams =>
    exact nonces fun _ _ => bind blob fun _ => bind blob fun _ => bind word64 fun _ => blob.map _
  | serverDhParamsOk => exact nonces fun _ _ => blob.map _
  | serverDhParamsFail => exact nonces fun _ _ => (octets 16).map _
  | serverDhInnerData => exact ServerDhInnerData.selfDelimiting
  | clientDhInnerData => exact nonces fun _ _ => bind word64 fun _ => blob.map _
  | setClientDhParams => exact nonces fun _ _ => blob.map _
  | dhGenAnswer => exact nonces fun _ _ => (octets 16).map _
  | msgsAck => exact words.map _
  | ping => exact word64.map _
  | pong => exact bind word64 fun _ => word64.map _

end SelfDelimiting

/-- A record, with a tag in front or without. -/
inductive Encoded : {α : Type} → Read α → Prop where
  | bare {α : Type} {m : Read α} {zero : α} : Record m zero → Encoded m
  | boxed {α : Type} [Tagged α] {zero : α} : Record (Bare.read (α := α)) zero →
      Encoded (Read.exactBoxed α)

theorem SelfDelimiting.encoded {m : Read α} (h : Encoded m) : SelfDelimiting m := by
  cases h with
  | bare h => exact record h
  | boxed h => exact exactBoxed (record h)

/-! ## 2. What a run hangs on -/

/-- The first `n` bytes of a buffer decide that a reader gets `a` from it.  Whatever shares them
gives the same value and is read as far; a part of them is too short. -/
structure DecidedBy (m : Read α) (buffer : Bytes) (n : Nat) (a : α) : Prop where
  within : n ≤ buffer.length
  same : ∀ other : Bytes, other.take n = buffer.take n →
    ∃ r, m (.ofBytes other) = (a, r) ∧ r.failure = none ∧ r.position = n ∧
      r.consumed = buffer.take n
  fails : ∀ short : Bytes, short <+: buffer.take n → short ≠ buffer.take n →
    (m (.ofBytes short)).2.failure ≠ none

/-- A reader fails where only the beginning is left of what it reads. -/
theorem Reads.failure_ne_none {m : Read α} (hm : SelfDelimiting m) {bs short : Bytes} {a : α}
    (h : Reads m bs a) (hpart : short <+: bs) (hne : short ≠ bs) :
    (m (.ofBytes short)).2.failure ≠ none := by
  intro hnone
  obtain ⟨missing, rfl⟩ := hpart
  obtain ⟨as, rest, b, rfl, hread, -⟩ := hm.exists_of_ofBytes hnone
  -- what has been found in the beginning is already the value, so nothing is missing
  have heq : as ++ rest ++ missing ++ [] = as ++ (rest ++ missing) := by simp
  obtain ⟨-, hrest⟩ := h.det hread heq
  obtain ⟨-, rfl⟩ := List.append_eq_nil_iff.mp hrest.symm
  simp at hne

/-- What has been read decides what it has been read as. -/
theorem Reads.decidedBy {m : Read α} (hm : SelfDelimiting m) {bs : Bytes} {a : α}
    (h : Reads m bs a) (rest : Bytes) : DecidedBy m (bs ++ rest) bs.length a := by
  have htake : (bs ++ rest).take bs.length = bs := List.take_left
  refine ⟨?within, ?same, ?fails⟩
  case within => simp
  case same =>
    intro other hother
    rw [htake] at hother ⊢
    have hsplit : bs ++ other.drop bs.length = other := by
      conv_rhs => rw [← List.take_append_drop bs.length other, hother]
    have hread := h [] (other.drop bs.length)
    rw [hsplit, List.append_nil] at hread
    refine ⟨⟨bs.reverse, other.drop bs.length, none⟩, hread, rfl, ?_, ?_⟩
    · simp [Reader.position]
    · simp [Reader.consumed]
  case fails =>
    intro short hpart hne
    rw [htake] at hpart hne
    exact h.failure_ne_none hm hpart hne

/-- **A record shows by itself where it ends.**  If reading it succeeds, the bytes that have been
read decide the value, how far it goes and what has been consumed, whatever follows them; and on
fewer of them reading fails. -/
theorem Encoded.self_delimited {m : Read α} (hm : Encoded m) {buffer : Bytes} {a : α} {r : Reader}
    (h : m (.ofBytes buffer) = (a, r)) (hr : r.failure = none) :
    DecidedBy m buffer r.position a := by
  have hdelimiting := SelfDelimiting.encoded hm
  have hdone : (m (.ofBytes buffer)).2.failure = none := by rw [h]; exact hr
  obtain ⟨bs, rest, b, rfl, hread, hrun⟩ := hdelimiting.exists_of_ofBytes hdone
  rw [h] at hrun
  obtain ⟨rfl, rfl⟩ := Prod.mk.inj hrun
  have hposition : Reader.position ⟨bs.reverse, rest, none⟩ = bs.length := by
    simp [Reader.position]
  rw [hposition]
  exact hread.decidedBy hdelimiting rest

/-- An acknowledgement of one message, padded. -/
theorem msgsAck_self_delimited :
    let ack : Bytes := [0x15, 0xc4, 0xb5, 0x1c, 1, 0, 0, 0, 7, 0, 0, 0, 0, 0, 0, 0]
    let m : Read MsgsAck := Bare.read
    let r : Reader := ⟨ack.reverse, [9, 9, 9], none⟩
    Encoded m ∧ m (.ofBytes (ack ++ [9, 9, 9])) = (⟨[7]⟩, r) ∧ r.failure = none ∧
      DecidedBy m (ack ++ [9, 9, 9]) 16 ⟨[7]⟩ := by
  intro ack m r
  have hm : Encoded m := .bare .msgsAck
  have hrun : m (.ofBytes (ack ++ [9, 9, 9])) = (⟨[7]⟩, r) :=
    Prod.ext (by decide) (by decide)
  exact ⟨hm, hrun, rfl, Encoded.self_delimited hm hrun rfl⟩

end Mtproto.Wire
