import Mathlib.Tactic.Common
import Mtproto.Proofs.Grammar
import Mtproto.Schema.Handshake
import Mtproto.Schema.Service

/-!
# Programs that read

A `Reader` changes in three places only: when bytes are taken, when a blob is taken, and when a
failure is recorded.  Every operation of a reader is put together from these (`Primitive`), from
looks at the reader and from sequences.  So is every program that uses the operations (`Program`),
with vectors in vectors and boxed values in both.

`Trace` lists the readers that a run goes through, inside nested operations too.

* `Program.traced`: every run of a program has a trace.  What holds along traces therefore holds of
  all programs; the module on the first failure of a reader goes on from here.
* `Idle`: what a computation returns when it starts after a failure.
* `Idle.operation`: for every operation that is the zero value of its kind, so a record that is read
  after a failure has fields of zeros.
-/

namespace Mtproto.Wire

variable {α β : Type}

/-! ## 1. Operations and programs -/

/-- The operations that read a value of a fixed kind, with the zero value of that kind. -/
inductive Primitive : {α : Type} → Read α → α → Prop where
  | uint (bits : Nat) : Primitive (Read.uint bits) 0
  | word32 : Primitive Read.word32 0
  | int32 : Primitive Read.int32 0
  | word64 : Primitive Read.word64 0
  | int64 : Primitive Read.int64 0
  | octets (n : Nat) : Primitive (Read.octets n) (.zero n)
  | raw (n : Nat) : Primitive (Read.raw n) []
  | remainder : Primitive Read.remainder []
  | bool : Primitive Read.bool false
  | blob : Primitive Read.blob []
  | text : Primitive Read.text ""
  | natural : Primitive Read.natural 0

/-- The bare values, with those whose fields are zero. -/
inductive Record : {α : Type} → Read α → α → Prop where
  | reqPq : Record Bare.read ({ nonce := .zero 16 } : ReqPq)
  | resPq : Record Bare.read
      ({ nonce := .zero 16, serverNonce := .zero 16, pq := [], fingerprints := [] } : ResPq)
  | pqInnerData : Record Bare.read
      ({ pq := [], p := [], q := [], nonce := .zero 16, serverNonce := .zero 16,
         newNonce := .zero 32 } : PqInnerData)
  | reqDhParams : Record Bare.read
      ({ nonce := .zero 16, serverNonce := .zero 16, p := [], q := [], publicKeyFingerprint := 0,
         encryptedData := [] } : ReqDhParams)
  | serverDhParamsOk : Record Bare.read
      ({ nonce := .zero 16, serverNonce := .zero 16, encryptedAnswer := [] } : ServerDhParamsOk)
  | serverDhParamsFail : Record Bare.read
      ({ nonce := .zero 16, serverNonce := .zero 16, newNonceHash := .zero 16 } :
        ServerDhParamsFail)
  | serverDhInnerData : Record Bare.read
      ({ nonce := .zero 16, serverNonce := .zero 16, g := 0, dhPrime := [], gA := [],
         serverTime := 0 } : ServerDhInnerData)
  | clientDhInnerData : Record Bare.read
      ({ nonce := .zero 16, serverNonce := .zero 16, retryId := 0, gB := [] } : ClientDhInnerData)
  | setClientDhParams : Record Bare.read
      ({ nonce := .zero 16, serverNonce := .zero 16, encryptedData := [] } : SetClientDhParams)
  | dhGenAnswer : Record Bare.read
      ({ nonce := .zero 16, serverNonce := .zero 16, newNonceHash := .zero 16 } : DhGenAnswer)
  | msgsAck : Record Bare.read ({ msgIds := [] } : MsgsAck)
  | ping : Record Bare.read ({ pingId := 0 } : Ping)
  | pong : Record Bare.read ({ msgId := 0, pingId := 0 } : Pong)

/-- All operations, with what they return when they read nothing. -/
inductive Operation : {α : Type} → Read α → α → Prop where
  | primitive {α : Type} {m : Read α} {zero : α} : Primitive m zero → Operation m zero
  | record {α : Type} {m : Read α} {zero : α} : Record m zero → Operation m zero
  | vector {α : Type} (item : Read α) : Operation (Read.vector item) []
  | boxed (α : Type) [Family α] : Operation (Read.boxed α) none
  | exactBoxed (α : Type) [Tagged α] : Operation (Read.exactBoxed α) none
  | fail (e : DecodeError) : Operation (Read.fail e) ()

/-- What can be done with a reader: looking at it, the operations, whose items and fields are
programs in turn, and one thing after the other. -/
inductive Program : {α : Type} → Read α → Prop where
  | look {α : Type} (f : Reader → α) : Program fun r => (f r, r)
  | fail (e : DecodeError) : Program (Read.fail e)
  | primitive {α : Type} {m : Read α} {zero : α} : Primitive m zero → Program m
  | vector {α : Type} {item : Read α} : Program item → Program (Read.vector item)
  | boxed {α : Type} [Family α] : (∀ tag, Program (Family.readFields (α := α) tag)) →
      Program (Read.boxed α)
  | exactBoxed {α : Type} [Tagged α] : Program (Bare.read (α := α)) → Program (Read.exactBoxed α)
  | bind {α β : Type} {m : Read α} {f : α → Read β} : Program m → (∀ a, Program (f a)) →
      Program (m >>= f)

/-! ## 2. Traces -/

/-- The readers that a run goes through after the one it starts from. -/
inductive Trace : {α : Type} → Read α → Reader → List Reader → Prop where
  | look {α : Type} (f : Reader → α) (r : Reader) : Trace (fun r => (f r, r)) r []
  | fail (e : DecodeError) (r : Reader) : Trace (Read.fail e) r [r.fail e]
  | take (n : Nat) (r : Reader) : Trace (Read.take? n) r [(Read.take? n r).2]
  | blob (r : Reader) : Trace Read.blob r [(Read.blob r).2]
  | bind {α β : Type} {m : Read α} {f : α → Read β} {r : Reader} {before after : List Reader} :
      Trace m r before → Trace (f (m r).1) (m r).2 after → Trace (m >>= f) r (before ++ after)

/-- A computation of which every run has a trace. -/
def Traced (m : Read α) : Prop :=
  ∀ r, ∃ states, Trace m r states

namespace Traced

theorem look (f : Reader → α) : Traced fun r => (f r, r) :=
  fun r => ⟨[], .look f r⟩

theorem pure (a : α) : Traced (Pure.pure a : Read α) :=
  look fun _ => a

theorem fail (e : DecodeError) : Traced (Read.fail e) :=
  fun r => ⟨_, .fail e r⟩

theorem take? (n : Nat) : Traced (Read.take? n) :=
  fun r => ⟨_, .take n r⟩

theorem blob : Traced Read.blob :=
  fun r => ⟨_, .blob r⟩

/-- The readers of the first part come first, and the second part goes on from the last of them. -/
theorem bind {m : Read α} {f : α → Read β} (hm : Traced m) (hf : ∀ a, Traced (f a)) :
    Traced (m >>= f) := by
  intro r
  obtain ⟨before, hbefore⟩ := hm r
  obtain ⟨after, hafter⟩ := hf (m r).1 (m r).2
  exact ⟨before ++ after, hbefore.bind hafter⟩

theorem failed : Traced Read.failed :=
  look Reader.failed

theorem octets (n : Nat) : Traced (Read.octets n) :=
  bind (take? n) fun _ => pure _

theorem raw (n : Nat) : Traced (Read.raw n) :=
  bind (take? n) fun _ => pure _

theorem uint (bits : Nat) : Traced (Read.uint bits) := by
  unfold Read.uint
  split
  · exact bind (take? _) fun _ => pure _
  · exact bind (fail _) fun _ => pure _

theorem word32 : Traced Read.word32 :=
  bind (uint 32) fun _ => pure _

theorem word64 : Traced Read.word64 :=
  bind (uint 64) fun _ => pure _

theorem bool : Traced Read.bool := by
  refine bind word32 fun tag => ?_
  split
  · exact pure _
  · split
    · exact bind (fail _) fun _ => pure _
    · exact pure _

/-- A text is a blob and then a look at its bytes, so it adds one failure at most. -/
theorem text : Traced Read.text := by
  refine bind blob fun data => ?_
  split
  · exact pure _
  · exact bind (fail _) fun _ => pure _

theorem primitive {m : Read α} {zero : α} (h : Primitive m zero) : Traced m := by
  cases h with
  | uint bits => exact uint bits
  | word32 => exact word32
  | int32 => exact bind word32 fun _ => pure _
  | word64 => exact word64
  | int64 => exact bind word64 fun _ => pure _
  | octets n => exact octets n
  | raw n => exact raw n
  | remainder => exact bind (look fun r => r) fun r => raw _
  | bool => exact bool
  | blob => exact blob
  | text => exact text
  | natural => exact bind blob fun _ => pure _

/-- The items of a vector are one after another, and the loop stops at the first one that fails. -/
theorem items {item : Read α} (h : Traced item) (count : Nat) (acc : List α) :
    Traced (Read.items item count acc) := by
  induction count generalizing acc with
  | zero => exact pure _
  | succ count ih =>
    rw [items_succ]
    refine bind failed fun failed => ?_
    split
    · exact pure _
    · exact bind h fun a => ih (a :: acc)

/-- A vector is its tag, its count, which may be refused, and its items. -/
theorem vector {item : Read α} (h : Traced item) : Traced (Read.vector item) := by
  refine bind word32 fun tag => bind failed fun failed => ?_
  split
  · exact pure _
  · split
    · exact bind (fail _) fun _ => pure _
    · refine bind word32 fun count => bind (look fun r => r) fun r => ?_
      dsimp only
      split
      · exact bind (fail _) fun _ => pure _
      · exact items h _ _

theorem unlessFailed (a : α) : Traced (Read.unlessFailed a) := by
  refine bind failed fun failed => ?_
  split <;> exact pure _

/-- The fields behind a tag are those of the family, and the tag is read first. -/
theorem boxed [Family α] (h : ∀ tag, Traced (Family.readFields (α := α) tag)) :
    Traced (Read.boxed α) := by
  refine bind word32 fun tag => bind failed fun failed => ?_
  split
  · exact pure _
  · refine bind (h tag) fun a? => ?_
    split
    · exact unlessFailed _
    · exact bind (fail _) fun _ => pure _

/-- A value of one kind is a tag that must be the right one, and the fields. -/
theorem exactBoxed [Tagged α] (h : Traced (Bare.read (α := α))) : Traced (Read.exactBoxed α) := by
  refine bind word32 fun tag => bind failed fun failed => ?_
  split
  · exact pure _
  · split
    · exact bind (fail _) fun _ => pure _
    · exact bind h fun a => unlessFailed a

end Traced

/-- **Every run of a program has a trace.** -/
theorem Program.traced {m : Read α} (h : Program m) : Traced m := by
  induction h with
  | look f => exact .look f
  | fail e => exact .fail e
  | primitive h => exact .primitive h
  | vector _ ih => exact .vector ih
  | boxed _ ih => exact .boxed ih
  | exactBoxed _ ih => exact .exactBoxed ih
  | bind _ _ ihm ihf => exact .bind ihm ihf

namespace Program

theorem pure (a : α) : Program (Pure.pure a : Read α) :=
  look fun _ => a

theorem map {m : Read α} (h : Program m) (f : α → β) : Program (do return f (← m)) :=
  h.bind fun _ => pure _

theorem word32 : Program Read.word32 := primitive .word32

theorem int32 : Program Read.int32 := primitive .int32

theorem word64 : Program Read.word64 := primitive .word64

theorem octets (n : Nat) : Program (Read.octets n) := primitive (.octets n)

theorem blob : Program Read.blob := primitive .blob

end Program

/-! ## 3. After a failure -/

/-- A computation that returns `zero` from a reader that has failed, and leaves the reader. -/
def Idle (m : Read α) (zero : α) : Prop :=
  ∀ r e, r.failure = some e → m r = (zero, r)

namespace Idle

theorem pure (a : α) : Idle (Pure.pure a : Read α) a :=
  fun _ _ _ => rfl

/-- After a failure the zero value of the first part is handed to the second. -/
theorem bind {m : Read α} {f : α → Read β} {a : α} {b : β} (hm : Idle m a) (hf : Idle (f a) b) :
    Idle (m >>= f) b := by
  intro r e hr
  change f (m r).1 (m r).2 = _
  rw [hm r e hr]
  exact hf r e hr

theorem fail (e : DecodeError) : Idle (Read.fail e) () := by
  intro r e' hr
  change ((), r.fail e) = _
  rw [Reader.fail, hr]

theorem failed : Idle Read.failed true := by
  intro r e hr
  change (r.failure.isSome, r) = _
  rw [hr]
  rfl

theorem take? (n : Nat) : Idle (Read.take? n) none := by
  intro r e hr
  rw [Read.take?, hr]

theorem blob : Idle Read.blob [] := by
  intro r e hr
  rw [Read.blob, hr]

theorem map {m : Read α} {a : α} (h : Idle m a) (f : α → β) : Idle (do return f (← m)) (f a) :=
  h.bind (pure _)

theorem octets (n : Nat) : Idle (Read.octets n) (.zero n) := (take? n).map _

theorem raw (n : Nat) : Idle (Read.raw n) [] := (take? n).map _

theorem uint (bits : Nat) : Idle (Read.uint bits) 0 := by
  unfold Read.uint
  split
  · exact (take? _).map _
  · exact (fail _).bind (pure _)

theorem word32 : Idle Read.word32 0 := (uint 32).map _

theorem word64 : Idle Read.word64 0 := (uint 64).map _

theorem int32 : Idle Read.int32 0 := word32.map _

theorem primitive {m : Read α} {zero : α} (h : Primitive m zero) : Idle m zero := by
  cases h with
  | uint bits => exact uint bits
  | word32 => exact word32
  | int32 => exact int32
  | word64 => exact word64
  | int64 => exact word64.map _
  | octets n => exact octets n
  | raw n => exact raw n
  | remainder => exact fun r e hr => raw _ r e hr
  | bool => exact word32.bind ((fail _).bind (pure _))
  | blob => exact blob
  | text => exact blob.bind (pure _)
  | natural => exact blob.map _

/-- A vector after a failure has no items, whatever they are. -/
theorem vector (item : Read α) : Idle (Read.vector item) [] :=
  word32.bind (failed.bind (pure _))

end Idle

/-- Some reader that has failed. -/
def spent : Reader := { rest := [], failure := some (.unknownConstructor 0) }

/-- A part of a bare value: a program that returns the same after every failure. -/
structure Field (m : Read α) : Prop where
  program : Program m
  idle : Idle m (m spent).1

namespace Field

theorem pure (a : α) : Field (Pure.pure a : Read α) where
  program := .pure a
  idle := .pure a

/-- A sequence of fields is a field; the later ones may depend on what has been read. -/
theorem bind {m : Read α} {f : α → Read β} (hm : Field m) (hf : ∀ a, Field (f a)) :
    Field (m >>= f) where
  program := hm.program.bind fun a => (hf a).program
  idle := by
    -- The first part leaves the reader as it is, so the second one starts from a failure too.
    have hspent : ((m >>= f) spent).1 = (f (m spent).1 spent).1 := by
      change (f (m spent).1 (m spent).2).1 = _
      rw [hm.idle spent _ rfl]
    rw [hspent]
    exact hm.idle.bind (hf _).idle

theorem map {m : Read α} (h : Field m) (f : α → β) : Field (do return f (← m)) :=
  h.bind fun _ => pure _

theorem primitive {m : Read α} {zero : α} (h : Primitive m zero) : Field m where
  program := .primitive h
  idle := by
    have hzero := Idle.primitive h
    rwa [hzero spent _ rfl]

theorem octets (n : Nat) : Field (Read.octets n) := primitive (.octets n)

theorem blob : Field Read.blob := primitive .blob

theorem int32 : Field Read.int32 := primitive .int32

theorem word64 : Field Read.word64 := primitive .word64

theorem vector {item : Read α} (h : Program item) : Field (Read.vector item) where
  program := .vector h
  idle := .vector item

/-- The two nonces that most messages begin with. -/
theorem nonces {f : Nonce → Nonce → Read α} (h : ∀ a b, Field (f a b)) :
    Field (do f (← Read.octets 16) (← Read.octets 16)) :=
  (octets 16).bind fun a => (octets 16).bind fun b => h a b

/-- To read a bare value is to read its fields. -/
theorem record {m : Read α} {zero : α} (h : Record m zero) : Field m := by
  cases h with
  | reqPq => exact (octets 16).map _
  | resPq => exact nonces fun _ _ => blob.bind fun _ => (vector .word64).map _
  | pqInnerData =>
    exact blob.bind fun _ => blob.bind fun _ => blob.bind fun _ => nonces fun _ _ =>
      (octets 32).map _
  | reqDhParams =>
    exact nonces fun _ _ => blob.bind fun _ => blob.bind fun _ => word64.bind fun _ => blob.map _
  | serverDhParamsOk => exact nonces fun _ _ => blob.map _
  | serverDhParamsFail => exact nonces fun _ _ => (octets 16).map _
  | serverDhInnerData =>
    exact nonces fun _ _ => int32.bind fun _ => blob.bind fun _ => blob.bind fun _ => int32.map _
  | clientDhInnerData => exact nonces fun _ _ => word64.bind fun _ => blob.map _
  | setClientDhParams => exact nonces fun _ _ => blob.map _
  | dhGenAnswer => exact nonces fun _ _ => (octets 16).map _
  | msgsAck => exact (vector .word64).map _
  | ping => exact word64.map _
  | pong => exact word64.bind fun _ => word64.map _

end Field

theorem Idle.record {m : Read α} {zero : α} (h : Record m zero) : Idle m zero := by
  have hzero : (m spent).1 = zero := by cases h <;> rfl
  rw [← hzero]
  exact (Field.record h).idle

/-- **After a failure every operation returns the zero value of its kind.** -/
theorem Idle.operation {m : Read α} {zero : α} (h : Operation m zero) : Idle m zero := by
  cases h with
  | primitive h => exact Idle.primitive h
  | record h => exact Idle.record h
  | vector item => exact Idle.vector item
  | boxed => exact Idle.word32.bind (Idle.failed.bind (Idle.pure _))
  | exactBoxed => exact Idle.word32.bind (Idle.failed.bind (Idle.pure _))
  | fail e => exact Idle.fail e

/-! ## 4. The families -/

namespace Program

theorem record {m : Read α} {zero : α} (h : Record m zero) : Program m :=
  (Field.record h).program

/-- The responses of the key exchange: each tag has its fields. -/
theorem responseFields (tag : UInt32) : Program (HandshakeResponse.readFields tag) := by
  unfold HandshakeResponse.readFields
  repeat' split
  · exact (record .resPq).map _
  · exact (record .serverDhParamsOk).map _
  · exact (record .serverDhParamsFail).map _
  · exact (record .dhGenAnswer).map _
  · exact (record .dhGenAnswer).map _
  · exact (record .dhGenAnswer).map _
  · exact pure none

theorem requestFields (tag : UInt32) : Program (HandshakeRequest.readFields tag) := by
  unfold HandshakeRequest.readFields
  repeat' split
  · exact (record .reqPq).map _
  · exact (record .reqDhParams).map _
  · exact (record .setClientDhParams).map _
  · exact pure none

/-- The entries of a container: a header of sixteen bytes and a body of the length that is given in
it. -/
theorem entries (count : Nat) (acc : List ContainedMessage) :
    Program (ServiceMessage.readEntries count acc) := by
  induction count generalizing acc with
  | zero => exact pure _
  | succ count ih =>
    refine word64.bind fun _ => word32.bind fun _ => word32.bind fun length =>
      (primitive (.raw length.toNat)).bind fun _ => (look Reader.failed).bind fun failed => ?_
    split
    · exact pure _
    · exact ih _

theorem container : Program ServiceMessage.readContainer := by
  refine word32.bind fun count => (look fun r => r).bind fun r => ?_
  split
  · exact (fail _).bind fun _ => pure _
  · exact (entries _ _).map _

/-- The service messages: each tag has its fields. -/
theorem serviceFields (tag : UInt32) : Program (ServiceMessage.readFields tag) := by
  unfold ServiceMessage.readFields
  repeat' split
  · exact container.map _
  · exact word64.bind fun _ => (primitive .remainder).map _
  · exact int32.bind fun _ => (primitive .text).map _
  · exact (record .msgsAck).map _
  · exact (record .ping).map _
  · exact (record .pong).map _
  · exact word64.bind fun _ => word64.bind fun _ => word64.map _
  · exact word64.bind fun _ => word32.bind fun _ => int32.bind fun _ => word64.map _
  · exact word64.bind fun _ => word32.bind fun _ => int32.map _
  · exact blob.map _
  · exact pure none

end Program

end Mtproto.Wire
