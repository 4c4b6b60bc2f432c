import Mathlib.Tactic.Common
import Mtproto.Cipher.Ige
import Mtproto.Proofs.Aes
import Mtproto.Proofs.Bytes

/-!
# Infinite garble extension can be undone

`Ige` is the chaining mode in which everything encrypted travels.  A chain keeps the cipher block
and the plain block last seen, and both directions keep the same two.  So whoever decrypts stands,
after every block, where the one who encrypted stood, and undoes the next block: `mapM_undo` carries
this along a list of blocks.

Cutting data into blocks and joining the blocks are inverse on whole blocks (`join_blocks`,
`blocks_join`), which gives the statements on bytes.

* `aes256Decrypt_eq_ok_iff`: to decrypt into a text and to encrypt that text are the same relation.
* `exists_aes256Encrypt_iff`, `aes256Decrypt_eq_error_iff`: for which lengths there is a result, and
  the error for all others.
* `hashed_undone`: with a digest in front and random bytes behind, as in the key exchange, the text
  still comes back, and nothing is accepted that was not encrypted in this way, right digest or
  wrong.
-/

namespace Mtproto

/-! ## 1. Blocks -/

namespace Octets

variable {n : Nat}

/-- The blocks that have been cut off already only stand in front. -/
theorem splitBlocks_acc (count : Nat) (bs : Bytes) (acc : List (Octets n)) :
    splitBlocks n count bs acc = acc.reverse ++ splitBlocks n count bs [] := by
  induction count generalizing bs acc with
  | zero => simp [splitBlocks]
  | succ count ih =>
    simp only [splitBlocks]
    split
    · rw [ih _ (_ :: acc), ih _ [_]]
      simp
    · simp

@[simp] theorem join_nil : join ([] : List (Octets n)) = [] := rfl

@[simp] theorem join_cons (b : Octets n) (bl : List (Octets n)) :
    join (b :: bl) = b.bytes ++ join bl := by
  simp [join]

@[simp] theorem join_append (as bs : List (Octets n)) : join (as ++ bs) = join as ++ join bs := by
  simp [join]

/-- Of whole blocks, one may be split off, and the others are whole. -/
theorem length_split {count : Nat} {bs : Bytes} (h : bs.length = (count + 1) * n) :
    (bs.take n).length = n ∧ (bs.drop n).length = count * n := by
  rw [Nat.succ_mul] at h
  rw [List.length_take, List.length_drop]
  omega

/-- Cutting into blocks loses nothing of a string of whole blocks. -/
theorem join_splitBlocks {count : Nat} {bs : Bytes} (h : bs.length = count * n) :
    join (splitBlocks n count bs []) = bs := by
  induction count generalizing bs with
  | zero =>
    have : bs = [] := List.length_eq_zero_iff.mp (by simpa using h)
    simp [splitBlocks, join, this]
  | succ count ih =>
    obtain ⟨htake, hdrop⟩ := length_split h
    rw [splitBlocks, dif_pos htake, splitBlocks_acc, join_append, ih hdrop, List.reverse_singleton,
      join_cons, join_nil, List.append_nil, List.take_append_drop]

theorem length_splitBlocks {count : Nat} {bs : Bytes} (h : bs.length = count * n) :
    (splitBlocks n count bs []).length = count := by
  induction count generalizing bs with
  | zero => rfl
  | succ count ih =>
    obtain ⟨htake, hdrop⟩ := length_split h
    rw [splitBlocks, dif_pos htake, splitBlocks_acc, List.length_append, ih hdrop]
    exact Nat.add_comm 1 count

theorem length_join (bl : List (Octets n)) : (join bl).length = bl.length * n := by
  induction bl with
  | nil => simp
  | cons b bl ih =>
    rw [join_cons, List.length_append, length_bytes, ih, List.length_cons, Nat.succ_mul]
    exact Nat.add_comm _ _

/-- Joining the blocks of whole blocks gives them back. -/
theorem join_blocks {bs : Bytes} (h : bs.length % n = 0) : join (blocks n bs) = bs := by
  exact join_splitBlocks (Nat.div_mul_cancel (Nat.dvd_of_mod_eq_zero h)).symm

/-- Whole blocks are as many as their length says. -/
theorem length_blocks {bs : Bytes} (h : bs.length % n = 0) :
    (blocks n bs).length = bs.length / n := by
  exact length_splitBlocks (Nat.div_mul_cancel (Nat.dvd_of_mod_eq_zero h)).symm

/-- Blocks that have been put together are found again. -/
theorem splitBlocks_join (bl : List (Octets n)) : splitBlocks n bl.length (join bl) [] = bl := by
  induction bl with
  | nil => rfl
  | cons b bl ih =>
    have htake : (join (b :: bl)).take n = b.bytes := by
      rw [join_cons]
      exact List.take_left' b.length_bytes
    have hdrop : (join (b :: bl)).drop n = join bl := by
      rw [join_cons]
      exact List.drop_left' b.length_bytes
    rw [List.length_cons, splitBlocks, dif_pos (by rw [htake, length_bytes]), splitBlocks_acc,
      hdrop, ih]
    simp

/-- The blocks of joined blocks are those blocks. -/
theorem blocks_join (hn : 0 < n) (bl : List (Octets n)) : blocks n (join bl) = bl := by
  rw [blocks, length_join, Nat.mul_div_cancel _ hn, splitBlocks_join]

end Octets

/-! ## 2. Chains -/

namespace IgeChain

variable {n : Nat}

/-- A function on blocks that undoes another one, and leaves the chain in the same state. -/
def Undoes (g f : Octets n → StateM (IgeChain n) (Octets n)) : Prop :=
  ∀ b s, g (f b s).1 s = (b, (f b s).2)

/-- One step of decryption undoes one of encryption, and leaves the chain where the other has left
it. -/
theorem decryptBlock_undoes {c : BlockCipher n} (hc : c.Inverse) :
    Undoes (decryptBlock c) (encryptBlock c) := by
  intro p s
  simp [decryptBlock, encryptBlock, Octets.xor_xor_cancel, hc.decrypt_encrypt]

theorem encryptBlock_undoes {c : BlockCipher n} (hc : c.Inverse) :
    Undoes (encryptBlock c) (decryptBlock c) := by
  intro b s
  simp [decryptBlock, encryptBlock, Octets.xor_xor_cancel, hc.encrypt_decrypt]

theorem run_mapM_cons (f : Octets n → StateM (IgeChain n) (Octets n)) (b : Octets n)
    (bs : List (Octets n)) (s : IgeChain n) :
    ((b :: bs).mapM f).run s =
      ((f b s).1 :: ((bs.mapM f).run (f b s).2).1, ((bs.mapM f).run (f b s).2).2) := by
  rw [List.mapM_cons]
  rfl

/-- **What undoes a block undoes a list of blocks**, because both chains are in the same state
before every block. -/
theorem mapM_undo {g f : Octets n → StateM (IgeChain n) (Octets n)} (h : Undoes g f)
    (bs : List (Octets n)) (s : IgeChain n) :
    (((bs.mapM f).run s).1.mapM g).run s = (bs, ((bs.mapM f).run s).2) := by
  induction bs generalizing s with
  | nil => rfl
  | cons b bs ih => rw [run_mapM_cons, run_mapM_cons, h b s, ih]

theorem length_mapM (f : Octets n → StateM (IgeChain n) (Octets n)) (bs : List (Octets n))
    (s : IgeChain n) : ((bs.mapM f).run s).1.length = bs.length := by
  induction bs generalizing s with
  | nil => rfl
  | cons b bs ih => rw [run_mapM_cons, List.length_cons, List.length_cons, ih]

end IgeChain

/-! ## 3. Data -/

namespace Ige

variable {n : Nat}

/-- Whole blocks go through the chain one by one, and the chain is kept for the next call. -/
theorem process_of_whole (g : Ige n) (f : Octets n → StateM (IgeChain n) (Octets n))
    {data : Bytes} (h : data.length % n = 0) :
    g.process f data =
      .ok (Octets.join (((Octets.blocks n data).mapM f).run g.chain).1,
        { g with chain := (((Octets.blocks n data).mapM f).run g.chain).2 }) := by
  rw [process, if_neg (by simpa using h)]
  rfl

/-- Processing succeeds on whole blocks, and only on them. -/
theorem process_eq_ok_iff {g g' : Ige n} {f : Octets n → StateM (IgeChain n) (Octets n)}
    {data out : Bytes} :
    g.process f data = .ok (out, g') ↔
      data.length % n = 0 ∧ out = Octets.join (((Octets.blocks n data).mapM f).run g.chain).1 ∧
        g' = { g with chain := (((Octets.blocks n data).mapM f).run g.chain).2 } := by
  by_cases h : data.length % n = 0
  · rw [process_of_whole g f h]
    simp only [Except.ok.injEq, Prod.mk.injEq, h, true_and]
    exact and_congr eq_comm eq_comm
  · rw [process, if_pos h]
    simp [h]

/-- Encryption and decryption in place: as many bytes come out as go in. -/
theorem length_process {g g' : Ige n} {f : Octets n → StateM (IgeChain n) (Octets n)}
    {data out : Bytes} (h : g.process f data = .ok (out, g')) : out.length = data.length := by
  obtain ⟨hlen, rfl, -⟩ := process_eq_ok_iff.mp h
  rw [Octets.length_join, IgeChain.length_mapM, ← Octets.length_join, Octets.join_blocks hlen]

/-- What undoes a block undoes data. -/
theorem process_undo (hn : 0 < n) {f h : Octets n → StateM (IgeChain n) (Octets n)}
    (hu : IgeChain.Undoes h f) {g g' : Ige n} {data out : Bytes}
    (hp : g.process f data = .ok (out, g')) : g.process h out = .ok (data, g') := by
  have hlen := length_process hp
  obtain ⟨hwhole, rfl, rfl⟩ := process_eq_ok_iff.mp hp
  refine process_eq_ok_iff.mpr ?_
  rw [Octets.blocks_join hn, IgeChain.mapM_undo hu]
  refine ⟨?_, ?_, rfl⟩
  · rw [hlen, hwhole]
  · rw [Octets.join_blocks hwhole]

/-- What has been encrypted is decrypted from the same chain, and both sides end with one chain. -/
theorem decrypt_of_encrypt (hn : 0 < n) {g g' : Ige n} (hc : g.cipher.Inverse)
    {data out : Bytes} (h : g.encrypt data = .ok (out, g')) : g.decrypt out = .ok (data, g') :=
  process_undo hn (IgeChain.decryptBlock_undoes hc) h

theorem encrypt_of_decrypt (hn : 0 < n) {g g' : Ige n} (hc : g.cipher.Inverse)
    {data out : Bytes} (h : g.decrypt data = .ok (out, g')) : g.encrypt out = .ok (data, g') :=
  process_undo hn (IgeChain.encryptBlock_undoes hc) h

/-! ## 4. AES-256 in one call -/

theorem cipher_of_start {c : BlockCipher n} {iv : Bytes} {g : Ige n} (h : start c iv = .ok g) :
    g.cipher = c := by
  unfold start at h
  split at h
  · cases h; rfl
  · cases h

theorem inverse_of_aes256 {key iv : Bytes} {g : Ige 16} (h : aes256 key iv = .ok g) :
    g.cipher.Inverse := by
  unfold aes256 at h
  split at h
  · cases h
  · rw [cipher_of_start h]
    exact Aes.aes256_inverse _

/-- A vector that is accepted has two blocks. -/
theorem length_of_start {c : BlockCipher n} {iv : Bytes} {g : Ige n} (h : start c iv = .ok g) :
    iv.length = 2 * n := by
  unfold start at h
  split at h
  · rename_i hc hp
    rw [← List.take_append_drop n iv, List.length_append, Octets.length_of_ofBytes? hc,
      Octets.length_of_ofBytes? hp, Nat.two_mul]
  · cases h

/-- A vector of two blocks is cut into the two blocks before the first ones. -/
theorem exists_start (c : BlockCipher n) {iv : Bytes} (h : iv.length = 2 * n) :
    ∃ c₀ p₀ : Octets n, c₀.bytes = iv.take n ∧ p₀.bytes = iv.drop n ∧
      start c iv = .ok ⟨c, ⟨c₀, p₀⟩⟩ := by
  obtain ⟨htake, hdrop⟩ := Octets.length_split h
  rw [Nat.one_mul] at hdrop
  refine ⟨⟨_, htake⟩, ⟨_, hdrop⟩, rfl, rfl, ?_⟩
  rw [start, Octets.ofBytes?_of_length htake, Octets.ofBytes?_of_length hdrop]

theorem start_eq_ok {c : BlockCipher n} {iv : Bytes} (h : iv.length = 2 * n) :
    ∃ g, start c iv = .ok g := by
  obtain ⟨_, _, -, -, hstart⟩ := exists_start c h
  exact ⟨_, hstart⟩

/-- A key and a vector of 32 bytes each are never refused. -/
theorem aes256_eq_ok (key iv : Octets 32) : ∃ g, aes256 key.bytes iv.bytes = .ok g := by
  rw [aes256, Octets.ofBytes?_bytes]
  exact start_eq_ok iv.length_bytes

/-- An object and then its data, where either may be refused. -/
theorem fst_eq_ok_iff {start : Except Error (Ige n)} {run : Ige n → Except Error (Bytes × Ige n)}
    {out : Bytes} :
    (do return (← run (← start)).1) = .ok out ↔ ∃ g g', start = .ok g ∧ run g = .ok (out, g') := by
  cases start with
  | error e => simp [bind, Except.bind]
  | ok g =>
    cases hrun : run g with
    | error e => simp [bind, Except.bind, hrun]
    | ok r => simp [bind, Except.bind, pure, Except.pure, hrun, Prod.ext_iff]

theorem aes256Encrypt_eq_ok_iff {key iv data out : Bytes} :
    aes256Encrypt key iv data = .ok out ↔
      ∃ g g', aes256 key iv = .ok g ∧ g.encrypt data = .ok (out, g') :=
  fst_eq_ok_iff

theorem aes256Decrypt_eq_ok_iff' {key iv data out : Bytes} :
    aes256Decrypt key iv data = .ok out ↔
      ∃ g g', aes256 key iv = .ok g ∧ g.decrypt data = .ok (out, g') :=
  fst_eq_ok_iff

/-- **Decrypting into a text is encrypting that text, read backwards.** -/
theorem aes256Decrypt_eq_ok_iff {key iv sealed plain : Bytes} :
    aes256Decrypt key iv sealed = .ok plain ↔ aes256Encrypt key iv plain = .ok sealed := by
  rw [aes256Decrypt_eq_ok_iff', aes256Encrypt_eq_ok_iff]
  constructor
  · rintro ⟨g, g', hg, hd⟩
    exact ⟨g, g', hg, encrypt_of_decrypt (by decide) (inverse_of_aes256 hg) hd⟩
  · rintro ⟨g, g', hg, he⟩
    exact ⟨g, g', hg, decrypt_of_encrypt (by decide) (inverse_of_aes256 hg) he⟩

/-- With a key and a vector of the right length, all whole blocks can be encrypted. -/
theorem aes256Encrypt_total (key iv : Octets 32) {data : Bytes} (h : data.length % 16 = 0) :
    ∃ out, aes256Encrypt key.bytes iv.bytes data = .ok out := by
  obtain ⟨g, hg⟩ := aes256_eq_ok key iv
  exact ⟨_, aes256Encrypt_eq_ok_iff.mpr ⟨g, _, hg, process_eq_ok_iff.mpr ⟨h, rfl, rfl⟩⟩⟩

theorem length_aes256Encrypt {key iv data out : Bytes} (h : aes256Encrypt key iv data = .ok out) :
    out.length = data.length := by
  obtain ⟨g, g', -, he⟩ := aes256Encrypt_eq_ok_iff.mp h
  exact length_process he

/-- Only whole blocks are encrypted. -/
theorem mod_of_aes256Encrypt {key iv data out : Bytes} (h : aes256Encrypt key iv data = .ok out) :
    data.length % 16 = 0 := by
  obtain ⟨g, g', -, he⟩ := aes256Encrypt_eq_ok_iff.mp h
  exact (process_eq_ok_iff.mp he).1

/-- A key and a vector that are accepted have 32 bytes each. -/
theorem lengths_of_aes256 {key iv : Bytes} {g : Ige 16} (h : aes256 key iv = .ok g) :
    key.length = 32 ∧ iv.length = 32 := by
  unfold aes256 at h
  split at h
  · cases h
  · rename_i hkey
    exact ⟨Octets.length_of_ofBytes? hkey, length_of_start h⟩

/-- Three lengths are all that stands in the way of encrypting. -/
theorem exists_aes256Encrypt_iff {key iv data : Bytes} :
    (∃ out, aes256Encrypt key iv data = .ok out) ↔
      key.length = 32 ∧ iv.length = 32 ∧ data.length % 16 = 0 := by
  constructor
  · rintro ⟨out, h⟩
    obtain ⟨g, g', hg, -⟩ := aes256Encrypt_eq_ok_iff.mp h
    obtain ⟨hkey, hiv⟩ := lengths_of_aes256 hg
    exact ⟨hkey, hiv, mod_of_aes256Encrypt h⟩
  · rintro ⟨hkey, hiv, hwhole⟩
    exact aes256Encrypt_total ⟨key, hkey⟩ ⟨iv, hiv⟩ hwhole

/-- With a key and a vector of the right length, data are refused because they are not whole
blocks. -/
theorem aes256Decrypt_eq_error_iff (key iv : Octets 32) {data : Bytes} {e : Error} :
    aes256Decrypt key.bytes iv.bytes data = .error e ↔
      data.length % 16 ≠ 0 ∧ e = .crypto (.notWholeBlocks data.length 16) := by
  obtain ⟨g, hg⟩ := aes256_eq_ok key iv
  by_cases hwhole : data.length % 16 = 0
  · have hdone : g.decrypt data = _ := process_of_whole g _ hwhole
    have hok := aes256Decrypt_eq_ok_iff'.mpr ⟨g, _, hg, hdone⟩
    rw [hok]
    simp [hwhole]
  · have hrefused : g.decrypt data = .error (.crypto (.notWholeBlocks data.length 16)) :=
      if_pos hwhole
    rw [aes256Decrypt, hg]
    simp [bind, Except.bind, hrefused, hwhole, eq_comm]

/-! ## 5. A digest in front -/

/-- Digest, text and filler are encrypted; the filler is drawn, and as long as it takes to fill the
last block. -/
theorem run_encryptWithHash (key iv plain : Bytes) (e : Entropy) :
    encryptWithHash key iv plain e =
      (.ok (aes256Encrypt key iv
        ((sha1 plain).bytes ++ (plain ++ e.peek (hashPadding plain.length)))),
        e.skip (hashPadding plain.length)) := rfl

/-- Digest, text and random bytes are whole blocks. -/
theorem length_hashed_mod (hash : Octets 20) (plain : Bytes) {pad : Bytes}
    (h : pad.length = hashPadding plain.length) :
    (hash.bytes ++ (plain ++ pad)).length % 16 = 0 := by
  rw [List.length_append, List.length_append, Octets.length_bytes, h, ← Nat.add_assoc]
  exact add_paddingFor_mod _ (by decide)

/-- What comes out is the decrypted data, cut behind the digest. -/
theorem decryptWithHash_eq_ok_iff {key iv data rest hash : Bytes} :
    decryptWithHash key iv data = .ok (rest, hash) ↔
      hash.length = hashLength ∧ aes256Encrypt key iv (hash ++ rest) = .ok data := by
  rw [← aes256Decrypt_eq_ok_iff]
  unfold decryptWithHash
  cases hplain : aes256Decrypt key iv data with
  | error e =>
    have herror : (if data.length < hashLength then .error (.crypto (.answerTooShort data.length))
        else .error e : Except Error (Bytes × Bytes)) ≠ .ok (rest, hash) := by split <;> simp
    simpa [bind, Except.bind] using herror
  | ok plain =>
    have hlen := length_aes256Encrypt (aes256Decrypt_eq_ok_iff.mp hplain)
    simp only [bind, Except.bind, pure, Except.pure, Except.ok.injEq]
    constructor
    · intro h
      split at h
      · cases h
      · rename_i hlong
        cases h
        refine ⟨?_, (List.take_append_drop _ _).symm⟩
        rw [List.length_take]
        omega
    · rintro ⟨hhash, rfl⟩
      have hlong : ¬ data.length < hashLength := by
        rw [hlen, List.length_append]
        omega
      rw [if_neg hlong, ← hhash, List.drop_left, List.take_left]

/-- A text and padding of the right length can be encrypted behind a digest, right or wrong, and
decrypted. -/
theorem exists_hashed (key iv : Octets 32) (hash : Octets 20) {plain pad : Bytes}
    (h : pad.length = hashPadding plain.length) :
    ∃ data, aes256Encrypt key.bytes iv.bytes (hash.bytes ++ (plain ++ pad)) = .ok data ∧
      decryptWithHash key.bytes iv.bytes data = .ok (plain ++ pad, hash.bytes) ∧
      data.length < plain.length + 36 ∧ pad.length < 16 := by
  obtain ⟨data, hdata⟩ := aes256Encrypt_total key iv (length_hashed_mod hash plain h)
  have hpad : hashPadding plain.length < 16 := paddingFor_lt _ (by decide)
  refine ⟨data, hdata, decryptWithHash_eq_ok_iff.mpr ⟨hash.length_bytes, hdata⟩, ?_, ?_⟩
  · rw [length_aes256Encrypt hdata, List.length_append, List.length_append, Octets.length_bytes]
    omega
  · omega

/-- What is refused: data without room for a digest, and data that are not whole blocks. -/
theorem decryptWithHash_eq_error_iff (key iv : Octets 32) {data : Bytes} {e : Error} :
    decryptWithHash key.bytes iv.bytes data = .error e ↔
      (data.length < 20 ∧ e = .crypto (.answerTooShort data.length)) ∨
        (20 ≤ data.length ∧ data.length % 16 ≠ 0 ∧
          e = .crypto (.notWholeBlocks data.length 16)) := by
  have hlength : hashLength = 20 := rfl
  rw [decryptWithHash, hlength]
  by_cases hshort : data.length < 20
  · rw [if_pos hshort]
    simp [hshort, eq_comm]
  · rw [if_neg hshort]
    have hlong : 20 ≤ data.length := Nat.not_lt.mp hshort
    cases hplain : aes256Decrypt key.bytes iv.bytes data with
    | ok plain =>
      have hwhole : data.length % 16 = 0 := by
        by_contra hodd
        have := (aes256Decrypt_eq_error_iff key iv).mpr ⟨hodd, rfl⟩
        rw [hplain] at this
        cases this
      simp [bind, Except.bind, pure, Except.pure, hshort, hwhole]
    | error e' =>
      obtain ⟨hodd, rfl⟩ := (aes256Decrypt_eq_error_iff key iv).mp hplain
      simp [bind, Except.bind, hshort, hlong, hodd, eq_comm]

/-- **A digest in front, both ways.**  For a key and a vector of 32 bytes:

* encrypting takes the random bytes that are missing to a whole block from the tape, and decrypting
  gives the text with these bytes behind it, and its digest;
* decrypting gives `rest` and `hash` exactly if `hash` and `rest` are encrypted into the data;
* it refuses what has no room for a digest and what is not whole blocks, and nothing else.

The random bytes are taken before key and vector are looked at, so also if one of these has another
length; and this is all that encrypting refuses. -/
theorem hashed_undone (key iv : Octets 32) :
    (∀ (plain : Bytes) (e : Entropy),
      let drawn := (16 - (20 + plain.length) % 16) % 16
      ∃ data, encryptWithHash key.bytes iv.bytes plain e = (.ok (.ok data), e.skip drawn) ∧
        decryptWithHash key.bytes iv.bytes data =
          .ok (plain ++ e.peek drawn, (sha1 plain).bytes)) ∧
    (∀ data rest hash : Bytes, decryptWithHash key.bytes iv.bytes data = .ok (rest, hash) ↔
      hash.length = 20 ∧ aes256Encrypt key.bytes iv.bytes (hash ++ rest) = .ok data) ∧
    (∀ (data : Bytes) (error : Error),
      decryptWithHash key.bytes iv.bytes data = .error error ↔
        (data.length < 20 ∧ error = .crypto (.answerTooShort data.length)) ∨
          (20 ≤ data.length ∧ data.length % 16 ≠ 0 ∧
            error = .crypto (.notWholeBlocks data.length 16))) ∧
    ∀ (key' iv' plain : Bytes) (e : Entropy), ∃ answer,
      encryptWithHash key' iv' plain e =
        (.ok answer, e.skip ((16 - (20 + plain.length) % 16) % 16)) ∧
      ((∃ data, answer = .ok data) ↔ key'.length = 32 ∧ iv'.length = 32) := by
  refine ⟨?both, fun data rest hash => decryptWithHash_eq_ok_iff,
    fun data error => decryptWithHash_eq_error_iff key iv, ?drawn⟩
  case both =>
    intro plain e
    have hpad : (e.peek (hashPadding plain.length)).length = hashPadding plain.length :=
      e.length_peek _
    obtain ⟨data, hencrypt, hdecrypt, -⟩ := exists_hashed key iv (sha1 plain) hpad
    refine ⟨data, ?_, hdecrypt⟩
    rw [run_encryptWithHash, hencrypt]
    rfl
  case drawn =>
    intro key' iv' plain e
    have hpad : (e.peek (hashPadding plain.length)).length = hashPadding plain.length :=
      e.length_peek _
    have hwhole := length_hashed_mod (sha1 plain) plain hpad
    refine ⟨_, run_encryptWithHash key' iv' plain e, exists_aes256Encrypt_iff.trans ?_⟩
    simp only [hwhole, and_true]

end Ige

end Mtproto
