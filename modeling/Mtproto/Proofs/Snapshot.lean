import Mathlib.Data.List.Forall2
import Mathlib.Tactic.Common
import Mtproto.Proofs.Act
import Mtproto.Proofs.Grammar
import Mtproto.Snapshot

/-!
# The stored form of a state

`Snapshot.encode` writes the state of a session, and `Snapshot.decode` reads it.  `IsStored bs s`
says that `bs` is a stored form of the state `s`: the version, the addresses as a vector, the
authorization or that there is none, and the counter.  A state has many stored forms, because every
text and the key may be blobs that nobody would write.

* `encode_eq_ok_iff`: what is written is `bytes s`, which is one of them and the shortest, and it is
  written unless an address is too long for a blob.
* `decode_append`: every stored form is read, and whatever follows it is an error.
* `decode_eq_ok_iff`: nothing else is read.
* `encode_decode_exact`: all of this together.  Stored forms are told apart from all their
  beginnings and from all their continuations, and other versions are refused.
-/

namespace Mtproto

open Wire

/-! ## 1. Addresses -/

namespace Datacenter

/-- The address is not too long for a blob. -/
def Fits (dc : Datacenter) : Prop :=
  (Text.Utf8.encode dc.ip).length ≤ maxBlobLength

/-- What is written for an address. -/
def bytes (dc : Datacenter) : Bytes :=
  Bytes.le 4 dc.id.toUInt32.toNat ++
    (blobBytes (Text.Utf8.encode dc.ip) ++ Bytes.le 4 dc.port.toUInt32.toNat)

/-- A stored form of an address. -/
def IsStored (bs : Bytes) (dc : Datacenter) : Prop :=
  ∃ ip, IsBlob ip (Text.Utf8.encode dc.ip) ∧
    bs = Bytes.le 4 dc.id.toUInt32.toNat ++ (ip ++ Bytes.le 4 dc.port.toUInt32.toNat)

theorem IsStored.fits {bs : Bytes} {dc : Datacenter} (h : IsStored bs dc) : dc.Fits := by
  obtain ⟨ip, hip, -⟩ := h
  exact hip.length_data_le

theorem IsStored.length_bytes_le {bs : Bytes} {dc : Datacenter} (h : IsStored bs dc) :
    dc.bytes.length ≤ bs.length := by
  obtain ⟨ip, hip, rfl⟩ := h
  have := hip.length_blobBytes_le
  simp only [bytes, List.length_append, Bytes.length_le]
  omega

theorem isStored_bytes {dc : Datacenter} (h : dc.Fits) : IsStored dc.bytes dc :=
  ⟨_, isBlob_blobBytes h, rfl⟩

end Datacenter

namespace Snapshot

/-- An address is refused only if its text is too long for a blob. -/
theorem failure_writeDatacenter (w : Writer) (dc : Datacenter) :
    (writeDatacenter w dc).failure = none ↔ w.failure = none ∧ dc.Fits := by
  rw [writeDatacenter, Writer.failure_word32, Writer.text, Writer.failure_blob_eq_none_iff,
    Writer.failure_int32]
  rfl

theorem writes_datacenter {dc : Datacenter} (h : dc.Fits) :
    Writes (fun w => writeDatacenter w dc) dc.bytes :=
  (Writes.int32 dc.id).append ((Writes.blob h).append (.word32 dc.port.toUInt32))

/-- What a word says as a port. -/
theorem selfDelimiting_port (id : Int32) (ip : String) (port : UInt32) :
    SelfDelimiting (if port < 65536 then pure { id, ip, port := port.toUInt16 : Datacenter }
      else do
        Read.fail (.invalidValue (.port port.toNat))
        return { id, ip, port := 0 }) := by
  split
  · exact .pure _
  · exact .bind (.fail _) fun _ => .pure _

theorem selfDelimiting_readDatacenter : SelfDelimiting readDatacenter :=
  .bind .int32 fun id => .bind .text fun ip => .bind .word32 (selfDelimiting_port id ip)

/-- A port that passes the check is not cut off. -/
theorem toUInt32_toUInt16 {port : UInt32} (h : port < 65536) :
    port.toUInt16.toUInt32 = port := by
  have hlt : port.toNat < 65536 := h
  rw [← UInt32.toNat_inj, UInt16.toNat_toUInt32, UInt32.toNat_toUInt16]
  exact Nat.mod_eq_of_lt hlt

theorem toUInt32_lt (port : UInt16) : port.toUInt32 < 65536 := port.toNat_lt

/-- An address is read off its stored forms and nothing else; a word that is no port is refused. -/
theorem reads_readDatacenter_iff {bs : Bytes} {dc : Datacenter} :
    Reads readDatacenter bs dc ↔ Datacenter.IsStored bs dc := by
  constructor
  · intro h
    obtain ⟨_, id, _, rfl, hid, h⟩ := (reads_bind_iff .int32 fun id =>
      .bind .text fun ip => .bind .word32 (selfDelimiting_port id ip)).mp h
    obtain ⟨bytes, ip, _, rfl, hip, h⟩ := (reads_bind_iff .text fun ip =>
      .bind .word32 (selfDelimiting_port id ip)).mp h
    obtain ⟨_, port, _, rfl, hport, h⟩ := (reads_bind_iff .word32 (selfDelimiting_port id ip)).mp h
    split at h
    · rename_i hlt
      obtain ⟨rfl, rfl⟩ := reads_pure_iff.mp h
      refine ⟨bytes, reads_text_iff.mp hip, ?_⟩
      rw [reads_int32_iff.mp hid, reads_word32_iff.mp hport, toUInt32_toUInt16 hlt,
        List.append_nil]
    · exact absurd h (not_reads_fail_bind fun _ => .pure _)
  · rintro ⟨ip, hip, rfl⟩
    refine (Reads.int32_le dc.id).bind ((reads_text_iff.mpr hip).bind
      ((reads_bind_iff .word32 (selfDelimiting_port dc.id dc.ip)).mpr
        ⟨_, dc.port.toUInt32, [], (List.append_nil _).symm, .word32_le _, ?_⟩))
    rw [if_pos (toUInt32_lt dc.port), UInt16.toUInt16_toUInt32]
    exact .pure dc

/-- An address takes at least two words. -/
theorem four_le_of_reads (bs : Bytes) (dc : Datacenter) (h : Reads readDatacenter bs dc) :
    4 ≤ bs.length := by
  obtain ⟨ip, -, rfl⟩ := reads_readDatacenter_iff.mp h
  simp only [List.length_append, Bytes.length_le]
  omega

/-! ## 2. Authorizations -/

/-- What is written for an authorization, or for none. -/
def authBytes : Option Authorization → Bytes
  | none => Bytes.le 4 falseTag.toNat
  | some a => Bytes.le 4 trueTag.toNat ++ (blobBytes a.key.octets.bytes ++
      (Bytes.le 8 a.serverSalt.toNat ++ (Bytes.le 8 a.sessionId.toNat ++
        Bytes.le 8 a.timeOffset.toUInt64.toNat)))

/-- A stored form of an authorization, or of none. -/
def IsStoredAuth (bs : Bytes) : Option Authorization → Prop
  | none => bs = Bytes.le 4 falseTag.toNat
  | some a => ∃ key, IsBlob key a.key.octets.bytes ∧
      bs = Bytes.le 4 trueTag.toNat ++ (key ++
        (Bytes.le 8 a.serverSalt.toNat ++ (Bytes.le 8 a.sessionId.toNat ++
          Bytes.le 8 a.timeOffset.toUInt64.toNat)))

theorem length_key_le (key : AuthKey) : key.octets.bytes.length ≤ maxBlobLength := by
  rw [Octets.length_bytes]
  decide

/-- What is written is a stored form; a truth value in front says whether there is a key. -/
theorem isStoredAuth_authBytes (auth : Option Authorization) :
    IsStoredAuth (authBytes auth) auth := by
  cases auth with
  | none => rfl
  | some a => exact ⟨_, isBlob_blobBytes (length_key_le a.key), rfl⟩

theorem length_authBytes_le {bs : Bytes} {auth : Option Authorization}
    (h : IsStoredAuth bs auth) : (authBytes auth).length ≤ bs.length := by
  cases auth with
  | none =>
    cases h
    exact Nat.le_refl _
  | some a =>
    obtain ⟨key, hkey, rfl⟩ := h
    have := hkey.length_blobBytes_le
    simp only [authBytes, List.length_append, Bytes.length_le]
    omega

@[simp] theorem failure_writeAuth (w : Writer) (auth : Option Authorization) :
    (writeAuth w auth).failure = none ↔ w.failure = none := by
  cases auth with
  | none => simp [writeAuth]
  | some a =>
    have hkey := length_key_le a.key
    simp only [writeAuth, Writer.failure_int64, Writer.failure_word64,
      Writer.failure_blob_eq_none_iff, Writer.failure_bool, hkey, and_true]

theorem writes_auth (auth : Option Authorization) :
    Writes (fun w => writeAuth w auth) (authBytes auth) := by
  cases auth with
  | none => exact .word32 _
  | some a =>
    have h := (Writes.word32 trueTag).append ((Writes.blob (length_key_le a.key)).append
      ((Writes.word64 a.serverSalt).append ((Writes.word64 a.sessionId).append
        (.word64 a.timeOffset.toUInt64))))
    exact h

theorem selfDelimiting_readAuth : SelfDelimiting readAuth :=
  .bind .blob fun _ => .bind .word64 fun _ => .bind .word64 fun _ => .bind .int64 fun _ => .pure _

/-- A key is a blob of any length, behind it salt, session and offset; whether the blob is a key is
decided afterwards. -/
theorem reads_readAuth_iff {bs key : Bytes} {salt session : UInt64} {offset : Int64} :
    Reads readAuth bs (key, salt, session, offset) ↔ ∃ blob, IsBlob blob key ∧
      bs = blob ++ (Bytes.le 8 salt.toNat ++ (Bytes.le 8 session.toNat ++
        Bytes.le 8 offset.toUInt64.toNat)) := by
  constructor
  · intro h
    obtain ⟨blob, _, _, rfl, hkey, h⟩ := (reads_bind_iff .blob fun _ => .bind .word64 fun _ =>
      .bind .word64 fun _ => .bind .int64 fun _ => .pure _).mp h
    obtain ⟨_, _, _, rfl, hsalt, h⟩ := (reads_bind_iff .word64 fun _ =>
      .bind .word64 fun _ => .bind .int64 fun _ => .pure _).mp h
    obtain ⟨_, _, _, rfl, hsession, h⟩ := (reads_bind_iff .word64 fun _ =>
      .bind .int64 fun _ => .pure _).mp h
    obtain ⟨_, hoffset, hvalue⟩ := (reads_map_iff .int64).mp h
    cases hvalue
    refine ⟨blob, reads_blob_iff.mp hkey, ?_⟩
    rw [reads_word64_iff.mp hsalt, reads_word64_iff.mp hsession, reads_int64_iff.mp hoffset]
  · rintro ⟨blob, hblob, rfl⟩
    exact (Reads.blob hblob).bind ((Reads.word64_le salt).bind ((Reads.word64_le session).bind
      (Reads.int64_le offset).map))

/-- What there is of an authorization is its tag and its fields. -/
theorem isStoredAuth_some_iff {bs : Bytes} {a : Authorization} :
    IsStoredAuth bs (some a) ↔ ∃ fields, bs = Bytes.le 4 trueTag.toNat ++ fields ∧
      Reads readAuth fields (a.key.octets.bytes, a.serverSalt, a.sessionId, a.timeOffset) := by
  constructor
  · rintro ⟨key, hkey, rfl⟩
    exact ⟨_, rfl, reads_readAuth_iff.mpr ⟨key, hkey, rfl⟩⟩
  · rintro ⟨_, rfl, hfields⟩
    obtain ⟨key, hkey, rfl⟩ := reads_readAuth_iff.mp hfields
    exact ⟨key, hkey, rfl⟩

/-- A stored form of an authorization is read, whatever follows it. -/
theorem decodeAuth_append {bs : Bytes} {auth : Option Authorization} (h : IsStoredAuth bs auth)
    (seen rest : Bytes) :
    decodeAuth ⟨seen, bs ++ rest, none⟩ = .ok (auth, ⟨bs.reverse ++ seen, rest, none⟩) := by
  cases auth with
  | none =>
    cases h
    have hbool := Reads.bool false seen rest
    rw [if_neg Bool.false_ne_true] at hbool
    rw [decodeAuth, hbool]
    rfl
  | some a =>
    obtain ⟨fields, rfl, hfields⟩ := isStoredAuth_some_iff.mp h
    have hbool := Reads.bool true seen (fields ++ rest)
    rw [if_pos rfl] at hbool
    rw [decodeAuth, List.append_assoc, hbool, List.reverse_append, List.append_assoc]
    simp only [if_true]
    rw [hfields]
    simp only [Reader.check, Octets.ofBytes?_bytes]
    rfl

/-- What is read as an authorization is a stored form of it. -/
theorem exists_of_decodeAuth {r r' : Reader} {auth : Option Authorization}
    (h : decodeAuth r = .ok (auth, r')) (hr' : r'.failure = none) :
    r.failure = none ∧ ∃ bs, r.rest = bs ++ r'.rest ∧ IsStoredAuth bs auth := by
  unfold decodeAuth at h
  rcases hpresent : Read.bool r with ⟨present, r₁⟩
  rw [hpresent] at h
  cases present with
  | false =>
    cases h
    obtain ⟨hr, bs, hbs, hreads⟩ := SelfDelimiting.bool.exists_reads hpresent hr'
    exact ⟨hr, bs, hbs, reads_bool_iff.mp hreads⟩
  | true =>
    rcases hfields : readAuth r₁ with ⟨⟨key, serverSalt, sessionId, timeOffset⟩, r₂⟩
    simp only [if_true, hfields] at h
    cases hcheck : r₂.check with
    | error e =>
      rw [hcheck] at h
      cases h
    | ok _ =>
      rw [hcheck] at h
      have hr₂ := Reader.check_eq_ok_iff.mp hcheck
      obtain ⟨hr₁, fields, hrest, hreads⟩ := selfDelimiting_readAuth.exists_reads hfields hr₂
      obtain ⟨hr, tag, htag, hpresent⟩ := SelfDelimiting.bool.exists_reads hpresent hr₁
      cases hkey : Octets.ofBytes? 256 key with
      | none =>
        rw [hkey] at h
        cases h
      | some octets =>
        rw [hkey] at h
        cases h
        refine ⟨hr, _, ?_, isStoredAuth_some_iff.mpr
          ⟨fields, congrArg (· ++ fields) (reads_bool_iff.mp hpresent), ?_⟩⟩
        · rw [htag, hrest, List.append_assoc]
        · rwa [← Octets.bytes_of_ofBytes? hkey] at hreads

/-! ## 3. States -/

/-- What is written for the addresses. -/
def dcsBytes (dcs : List Datacenter) : Bytes :=
  Bytes.le 4 vectorTag.toNat ++
    (Bytes.le 4 (UInt32.ofNat dcs.length).toNat ++ dcs.flatMap Datacenter.bytes)

/-- A stored form of the addresses: the tag and the count, and a stored form of each. -/
def AreStored (bs : Bytes) (dcs : List Datacenter) : Prop :=
  dcs.length < 2 ^ 32 ∧ ∃ parts,
    bs = Bytes.le 4 vectorTag.toNat ++
      (Bytes.le 4 (UInt32.ofNat dcs.length).toNat ++ parts.flatten) ∧
    List.Forall₂ Datacenter.IsStored parts dcs

/-- What is written for a state. -/
def bytes (s : Snapshot) : Bytes :=
  Bytes.le 4 version.toNat ++ (dcsBytes s.dcs ++ (authBytes s.auth ++ Bytes.le 4 s.seqNo.toNat))

/-- A stored form of a state. -/
def IsStored (bs : Bytes) (s : Snapshot) : Prop :=
  ∃ dcs auth, AreStored dcs s.dcs ∧ IsStoredAuth auth s.auth ∧
    bs = Bytes.le 4 version.toNat ++ (dcs ++ (auth ++ Bytes.le 4 s.seqNo.toNat))

theorem areStored_dcsBytes {dcs : List Datacenter} (hcount : dcs.length < 2 ^ 32)
    (h : ∀ dc ∈ dcs, dc.Fits) : AreStored (dcsBytes dcs) dcs := by
  refine ⟨hcount, dcs.map Datacenter.bytes, ?_, ?_⟩
  · rw [dcsBytes, List.flatMap_def]
  · exact List.forall₂_map_left_iff.mpr
      (List.forall₂_same.mpr fun dc hdc => Datacenter.isStored_bytes (h dc hdc))

theorem isStored_bytes {s : Snapshot} (hcount : s.dcs.length < 2 ^ 32)
    (h : ∀ dc ∈ s.dcs, dc.Fits) : IsStored s.bytes s :=
  ⟨_, _, areStored_dcsBytes hcount h, isStoredAuth_authBytes s.auth, rfl⟩

/-- Addresses that are stored fit. -/
theorem AreStored.fits {bs : Bytes} {dcs : List Datacenter} (h : AreStored bs dcs) :
    ∀ dc ∈ dcs, dc.Fits := by
  obtain ⟨-, parts, -, hparts⟩ := h
  intro dc hdc
  obtain ⟨part, -, hpart⟩ := exists_of_forall₂ hparts hdc
  exact hpart.fits

/-- What is written is no longer than any other stored form. -/
theorem length_dcsBytes_le {bs : Bytes} {dcs : List Datacenter} (h : AreStored bs dcs) :
    (dcsBytes dcs).length ≤ bs.length := by
  obtain ⟨-, parts, rfl, hparts⟩ := h
  have hitems : (dcs.flatMap Datacenter.bytes).length ≤ parts.flatten.length := by
    induction hparts with
    | nil => exact Nat.le_refl _
    | cons hpart _ ih =>
      have := hpart.length_bytes_le
      simp only [List.flatMap_cons, List.flatten_cons, List.length_append]
      omega
  simp only [dcsBytes, List.length_append]
  omega

theorem IsStored.length_bytes_le {bs : Bytes} {s : Snapshot} (h : IsStored bs s) :
    s.bytes.length ≤ bs.length := by
  obtain ⟨dcs, auth, hdcs, hauth, rfl⟩ := h
  have := length_dcsBytes_le hdcs
  have := length_authBytes_le hauth
  simp only [bytes, List.length_append]
  omega

/-! ## 4. Writing and reading states -/

/-- Of a whole state, only the addresses can be refused. -/
theorem failure_writes (s : Snapshot) :
    ((writeAuth ((Writer.empty.word32 version).vector s.dcs writeDatacenter) s.auth).word32
      s.seqNo).failure = none ↔ ∀ dc ∈ s.dcs, dc.Fits := by
  rw [Writer.failure_word32, failure_writeAuth, Writer.vector,
    Writer.failure_foldl_eq_none_iff failure_writeDatacenter]
  simp [Writer.empty]

/-- **What `encode` writes.**  A state is written unless an address is too long for a blob. -/
theorem encode_eq_ok_iff {s : Snapshot} {bs : Bytes} :
    encode s = .ok bs ↔ (∀ dc ∈ s.dcs, dc.Fits) ∧ bs = s.bytes := by
  have hwritten (h : ∀ dc ∈ s.dcs, dc.Fits) : encode s = .ok s.bytes := by
    have hdcs : Writes (·.vector s.dcs writeDatacenter) (dcsBytes s.dcs) := by
      have hitems := Writes.foldl fun dc hdc => writes_datacenter (h dc hdc)
      have := ((Writes.word32 vectorTag).append (.word32 (UInt32.ofNat s.dcs.length))).append hitems
      rwa [List.append_assoc] at this
    have hall := ((Writes.word32 version).append (hdcs.append ((writes_auth s.auth).append
      (.word32 s.seqNo)))).finish
    exact congrArg DecodeError.lift hall
  constructor
  · intro h
    have hfits := (failure_writes s).mp (Writer.failure_of_finish (DecodeError.lift_eq_ok_iff.mp h))
    exact ⟨hfits, Except.ok.inj (h.symm.trans (hwritten hfits))⟩
  · rintro ⟨hfits, rfl⟩
    exact hwritten hfits

theorem reads_datacenters_iff {bs : Bytes} {dcs : List Datacenter} :
    Reads (Read.vector readDatacenter) bs dcs ↔ AreStored bs dcs := by
  have hitems : Reads readDatacenter = Datacenter.IsStored :=
    funext₂ fun _ _ => propext reads_readDatacenter_iff
  rw [reads_vector_iff selfDelimiting_readDatacenter four_le_of_reads, hitems, AreStored]

/-- The list of datacenters ends where its last entry ends. -/
theorem selfDelimiting_readDatacenters : SelfDelimiting (Read.vector readDatacenter) :=
  .vector selfDelimiting_readDatacenter four_le_of_reads

/-- **Stored forms end where they end.**  Each is read, and what follows it is an error. -/
theorem decode_append {bs : Bytes} {s : Snapshot} (h : IsStored bs s) (rest : Bytes) :
    decode (bs ++ rest) =
      if rest = [] then .ok s else .error (.decode (.trailingBytes rest.length)) := by
  obtain ⟨dcs, auth, hdcs, hauth, rfl⟩ := h
  have hdcs := reads_datacenters_iff.mpr hdcs
  have hseqNo := Reads.word32_le s.seqNo
  simp only [decode, Reader.ofBytes, List.append_assoc, Reads.word32_le version _ _, Reader.check,
    DecodeError.lift_ok, hdcs _ _, decodeAuth_append hauth, bind, Except.bind, hseqNo _ _, ne_eq,
    not_true_eq_false, if_false]
  cases rest with
  | nil => rfl
  | cons b rest => rfl

/-- **What `decode` reads.**  The stored forms of a state are all that is read as that state. -/
theorem decode_eq_ok_iff {bs : Bytes} {s : Snapshot} : decode bs = .ok s ↔ IsStored bs s := by
  constructor
  · intro h
    unfold decode at h
    rcases hword : Read.word32 (.ofBytes bs) with ⟨v, r₁⟩
    rcases hvector : Read.vector readDatacenter r₁ with ⟨dcs, r₂⟩
    simp only [hword, hvector, except_bind_eq_ok_iff] at h
    obtain ⟨_, -, h⟩ := h
    split at h
    · cases h
    · rename_i hversion
      obtain ⟨⟨auth, r₃⟩, hauth, h⟩ := except_bind_eq_ok_iff.mp h
      rcases hseqNo : Read.word32 r₃ with ⟨seqNo, r₄⟩
      simp only [hseqNo] at h
      obtain ⟨_, hfinish, hs⟩ := except_bind_eq_ok_iff.mp h
      cases hs
      obtain ⟨hr₄, hrest⟩ := Reader.finish_eq_ok_iff.mp (DecodeError.lift_eq_ok_iff.mp hfinish)
      -- Backwards: what has succeeded in the end had not failed before.
      obtain ⟨hr₃, last, hend, hseqNo⟩ := SelfDelimiting.word32.exists_reads hseqNo hr₄
      obtain ⟨hr₂, as, has, hauth⟩ := exists_of_decodeAuth (DecodeError.lift_eq_ok_iff.mp hauth) hr₃
      obtain ⟨hr₁, ds, hds, hvector⟩ := selfDelimiting_readDatacenters.exists_reads hvector hr₂
      obtain ⟨-, vs, hvs, hword⟩ := SelfDelimiting.word32.exists_reads hword hr₁
      refine ⟨ds, as, reads_datacenters_iff.mp hvector, hauth, ?_⟩
      change bs = _ at hvs
      rw [hvs, hds, has, hend, hrest, List.append_nil, reads_word32_iff.mp hword, not_not.mp hversion,
        reads_word32_iff.mp hseqNo]
  · intro h
    have := decode_append h []
    rwa [List.append_nil, if_pos rfl] at this

/-- A form with another version is refused for its version, whatever else there is. -/
theorem decode_of_version_ne {bs : Bytes} (hlength : 4 ≤ bs.length)
    (h : Bytes.ofLE (bs.take 4) ≠ 1) :
    decode bs = .error (.unsupportedStateVersion (UInt32.ofNat (Bytes.ofLE (bs.take 4)))) := by
  have hword : (bs.take 4).length = 4 := List.length_take_of_le hlength
  have hversion : UInt32.ofNat (Bytes.ofLE (bs.take 4)) ≠ version := by
    intro heq
    exact h ((Bytes.toNat_ofLE_four hword).symm.trans (congrArg UInt32.toNat heq))
  have hread := Reads.word32 hword [] (bs.drop 4)
  rw [List.take_append_drop] at hread
  simp only [decode, Reader.ofBytes, hread, Reader.check, DecodeError.lift_ok]
  exact if_pos hversion

/-- No stored form starts another one. -/
theorem stored_prefix_eq {bs p : Bytes} {s t : Snapshot} (hbs : IsStored bs s) (hp : IsStored p t)
    (h : p <+: bs) : p = bs := by
  obtain ⟨rest, rfl⟩ := h
  have hread := decode_append hp rest
  rw [decode_eq_ok_iff.mpr hbs] at hread
  split at hread
  · rename_i hrest
    rw [hrest, List.append_nil]
  · cases hread

/-- **The stored form of a state.**

* A state is written if and only if every address fits into a blob.  What is written is read as
  that state, and neither a beginning of it nor a continuation is read at all.
* Whatever starts with another version is refused for that version.
* Whatever is read can be written again, in no more bytes, and is then read as the same state. -/
theorem encode_decode_exact :
    (∀ s : Snapshot, s.dcs.length < 2 ^ 32 →
      ((∃ bs, encode s = .ok bs) ↔
        ∀ dc ∈ s.dcs, (Text.Utf8.encode dc.ip).length ≤ 2 ^ 24 - 1) ∧
      ∀ bs, encode s = .ok bs → decode bs = .ok s ∧
        (∀ p, p <+: bs → p ≠ bs → ∃ e, decode p = .error e) ∧
        ∀ b rest, decode (bs ++ b :: rest) =
          .error (.decode (.trailingBytes (rest.length + 1)))) ∧
    (∀ bs : Bytes, 4 ≤ bs.length → Bytes.ofLE (bs.take 4) ≠ 1 →
      decode bs = .error (.unsupportedStateVersion (UInt32.ofNat (Bytes.ofLE (bs.take 4))))) ∧
    ∀ bs s, decode bs = .ok s →
      ∃ written, encode s = .ok written ∧ written.length ≤ bs.length ∧
        decode written = .ok s := by
  refine ⟨fun s hcount => ⟨?_, fun bs hencode => ?_⟩, fun bs => decode_of_version_ne,
    fun bs s hdecode => ?_⟩
  · constructor
    · rintro ⟨bs, hencode⟩
      exact (encode_eq_ok_iff.mp hencode).1
    · intro hfits
      exact ⟨s.bytes, encode_eq_ok_iff.mpr ⟨hfits, rfl⟩⟩
  · obtain ⟨hfits, rfl⟩ := encode_eq_ok_iff.mp hencode
    have hstored := isStored_bytes hcount hfits
    refine ⟨decode_eq_ok_iff.mpr hstored, fun p hprefix hne => ?_, fun b rest => ?_⟩
    · cases hp : decode p with
      | error e => exact ⟨e, rfl⟩
      | ok t => exact absurd (stored_prefix_eq hstored (decode_eq_ok_iff.mp hp) hprefix) hne
    · rw [decode_append hstored, if_neg (List.cons_ne_nil b rest), List.length_cons]
  · have hstored := decode_eq_ok_iff.mp hdecode
    have ⟨_, _, hdcs, _⟩ := hstored
    refine ⟨s.bytes, encode_eq_ok_iff.mpr ⟨hdcs.fits, rfl⟩, hstored.length_bytes_le, ?_⟩
    exact decode_eq_ok_iff.mpr (isStored_bytes hdcs.1 hdcs.fits)

end Snapshot

end Mtproto
