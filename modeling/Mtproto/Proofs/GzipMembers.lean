import Mathlib.Tactic.Common
import Mtproto.Gzip.Member
import Mtproto.Proofs.DeflateBlocks
import Mtproto.Proofs.Containers

/-!
# The members of compressed data

A member is a header, compressed data, and a trailer with the check and the length of the data
(`IsMember`).  The header may have fields of its own, each of which is announced by a flag
(`IsHeader`): further bytes, a name, a comment, and a check of the header itself.

* `dropHeader_append`: the header is found and dropped, whatever fields it has.
* `holds_of_isMember`: whatever wrote it, a member holds the data.  So `Gzip.unpack` is right about
  everything that follows the format, not only about what our packer writes.
-/

namespace Mtproto.Gzip

/-! ## 1. The grammar of members -/

/-- An extra field: its length and so many bytes. -/
inductive IsField : Bytes → Prop
  | intro {field : Bytes} (hlength : field.length < 2 ^ 16) :
      IsField (Bytes.le 2 field.length ++ field)

/-- A name: bytes that are not zero, and a zero. -/
inductive IsName : Bytes → Prop
  | intro {name : Bytes} (hlength : name.length ≤ maxNameLength) (hnonzero : ∀ b ∈ name, b ≠ 0) :
      IsName (name ++ [0])

/-- The check of a header with these bytes before it: the low half of their check. -/
inductive IsHeaderCheck (front : Bytes) : Bytes → Prop
  | intro : IsHeaderCheck front (Bytes.le 2 (crc32 front).toNat)

/-- A part of the header that is there if a flag is set. -/
def Flagged (flags bit : UInt8) (form : Bytes → Prop) (part : Bytes) : Prop :=
  if flags &&& bit ≠ 0 then form part else part = []

/-- The header of a member.  The three highest flags are not set, and the lowest one, for text,
announces nothing.  There are six bytes about where the data come from. -/
inductive IsHeader : Bytes → Prop
  | intro {flags : UInt8} {origin extra name comment check : Bytes} (hflags : flags &&& 0xE0 = 0)
      (horigin : origin.length = 6) (hextra : Flagged flags 0x04 IsField extra)
      (hname : Flagged flags 0x08 IsName name) (hcomment : Flagged flags 0x10 IsName comment)
      (hcheck : Flagged flags 0x02 (IsHeaderCheck
        ([0x1f, 0x8b, 8, flags] ++ (origin ++ (extra ++ (name ++ comment))))) check) :
      IsHeader ([0x1f, 0x8b, 8, flags] ++ (origin ++ (extra ++ (name ++ comment))) ++ check)

/-- One member that holds these data. -/
inductive IsMember : Bytes → Bytes → Prop
  | intro {header body data : Bytes} (hheader : IsHeader header) (hbody : Deflates body data) :
      IsMember (header ++ (body ++ ServiceMessage.trailerText data)) data

/-! ## 2. The header is dropped -/

section Parts

variable {part : Bytes} (rest : Bytes)

theorem dropField_append (h : IsField part) : dropField (part ++ rest) = some rest := by
  cases h with
  | @intro field hlength =>
    have hback : Bytes.ofLE (Bytes.le 2 field.length) = field.length :=
      Bytes.ofLE_le_of_lt (by omega)
    simp only [Bytes.le] at hback
    simp [Bytes.le, dropField, hback]

theorem dropNameWithin_append {name : Bytes} {room : Nat} (hlength : name.length ≤ room)
    (hnonzero : ∀ b ∈ name, b ≠ 0) :
    dropNameWithin room ((name ++ [0]) ++ rest) = some rest := by
  induction name generalizing room with
  | nil => cases room <;> rfl
  | cons b name ih =>
    obtain ⟨room, rfl⟩ : ∃ k, room = k + 1 := ⟨room - 1, by simp at hlength; omega⟩
    rw [List.cons_append, List.cons_append, dropNameWithin, if_neg (hnonzero b List.mem_cons_self)]
    exact ih (Nat.le_of_succ_le_succ hlength) fun c hc => hnonzero c (List.mem_cons_of_mem b hc)

theorem dropName_append (h : IsName part) : dropName (part ++ rest) = some rest := by
  obtain ⟨hlength, hnonzero⟩ := h
  exact dropNameWithin_append rest hlength hnonzero

theorem dropHeaderCheck_append {front : Bytes} (h : IsHeaderCheck front part) :
    dropHeaderCheck (front ++ (part ++ rest)) (part ++ rest) = some rest := by
  obtain ⟨⟩ := h
  have hback : Bytes.ofLE (Bytes.le 2 (crc32 front).toNat) = (crc32 front).toNat % UInt16.size :=
    Bytes.ofLE_le 2 _
  simp only [Bytes.le] at hback
  simp only [Bytes.le, List.cons_append, List.nil_append, dropHeaderCheck, List.length_append,
    List.length_cons, Nat.add_assoc, Nat.reduceAdd, Nat.add_sub_cancel, List.take_left, hback,
    if_true]

/-- A part that is there only with its flag is dropped only with it. -/
theorem drop_flagged {flags bit : UInt8} {form : Bytes → Prop} {drop : Bytes → Option Bytes}
    (hdrop : form part → drop (part ++ rest) = some rest) (h : Flagged flags bit form part) :
    (if flags &&& bit ≠ 0 then drop (part ++ rest) else some (part ++ rest)) = some rest := by
  unfold Flagged at h
  split
  · rename_i hset
    rw [if_pos hset] at h
    exact hdrop h
  · rename_i hclear
    rw [if_neg hclear] at h
    rw [h]
    rfl

/-- The same in front of what comes next. -/
theorem drop_flagged_bind {flags bit : UInt8} {form : Bytes → Prop} {drop : Bytes → Option Bytes}
    (hdrop : form part → drop (part ++ rest) = some rest) (h : Flagged flags bit form part)
    (next : Bytes → Option Bytes) :
    (if flags &&& bit ≠ 0 then drop (part ++ rest) >>= next else some (part ++ rest) >>= next) =
      next rest := by
  rw [← apply_ite (· >>= next), drop_flagged rest hdrop h]
  rfl

end Parts

/-- **A header is dropped**, with all its fields. -/
theorem dropHeader_append {header : Bytes} (h : IsHeader header) (rest : Bytes) :
    dropHeader (header ++ rest) = some rest := by
  cases h with
  | @intro flags origin extra name comment check hflags horigin hextra hname hcomment hcheck =>
    match origin, horigin with
    | [a, b, c, d, e, f], _ =>
      have hlast := drop_flagged rest (dropHeaderCheck_append rest) hcheck
      simp only [List.cons_append, List.nil_append, List.append_assoc] at hlast ⊢
      -- each part that is dropped leaves the next one in front
      change (if flags &&& 0xE0 ≠ 0 then _ else _) = some rest
      rw [if_neg (not_not_intro hflags)]
      refine (drop_flagged_bind _ (dropField_append _) hextra _).trans ?_
      refine (drop_flagged_bind _ (dropName_append _) hname _).trans ?_
      refine (drop_flagged_bind _ (dropName_append _) hcomment _).trans ?_
      exact hlast

/-- **A member holds its data.** -/
theorem holds_of_isMember {packed data : Bytes} (h : IsMember packed data) : Holds packed data := by
  obtain ⟨hheader, hbody⟩ := h
  exact ⟨_, _, dropHeader_append hheader _, completes_of_deflates hbody _,
    ServiceMessage.trailerAgrees_trailerText data⟩

theorem checkedUnpack_of_isMember {packed data : Bytes} (h : IsMember packed data) {limit : Nat}
    (hlimit : limit + 1 < UInt64.size) :
    checkedUnpack packed limit = .ok (if data.length ≤ limit then .ok data
      else .error (.invalidValue (.inflatesPast limit))) := by
  rw [checkedUnpack_of_lt hlimit, unpack_of_holds (holds_of_isMember h)]

end Mtproto.Gzip
