import Mathlib.Tactic.Common
import Mtproto.Proofs.Ige

/-!
# Calls on a chained cipher, and calls that undo them

A chained cipher, `Ige`, is an object: it is called again and again, in both directions and on data
of any length, and every call overwrites its data block by block and moves the chain on.

`call` is such a call.  The check that the data are whole blocks comes before anything is written,
so a refused call leaves the data and the chain as they are (`call_refused`).  Overwriting the
blocks one by one is what `process` does with all of them (`call_eq`).

`echo` answers every call of an object with the opposite call on what that call has left in its
data.

* `call_opposite`: the opposite call brings the data back, and moves the chain in the same way.
* `after_echo`: so a second object that is started in the same way and gets the answers goes through
  the same chains, because the opposite call differs from the call in nothing but the data, which
  are again those before it.
* `streaming_undone`: for every block cipher with an inverse, and for AES-256.
-/

namespace Mtproto.Ige

variable {n : Nat}

/-! ## 1. Calls in place -/

/-- The two ways of processing data. -/
inductive Way where
  | encrypt
  | decrypt
deriving DecidableEq

namespace Way

/-- The other way. -/
def opposite : Way → Way
  | encrypt => decrypt
  | decrypt => encrypt

/-- What becomes of one block. -/
def block (way : Way) (c : BlockCipher n) : Octets n → StateM (IgeChain n) (Octets n) :=
  match way with
  | encrypt => IgeChain.encryptBlock c
  | decrypt => IgeChain.decryptBlock c

/-- The opposite way undoes every block. -/
theorem opposite_undoes (way : Way) {c : BlockCipher n} (hc : c.Inverse) :
    IgeChain.Undoes (way.opposite.block c) (way.block c) := by
  cases way with
  | encrypt => exact IgeChain.decryptBlock_undoes hc
  | decrypt => exact IgeChain.encryptBlock_undoes hc

/-- The data processed, or the reason why they are refused. -/
def process (way : Way) (g : Ige n) (data : Bytes) : Except Error (Bytes × Ige n) :=
  match way with
  | encrypt => g.encrypt data
  | decrypt => g.decrypt data

theorem process_eq (way : Way) (g : Ige n) (data : Bytes) :
    way.process g data = Ige.process g (way.block g.cipher) data := by
  cases way <;> rfl

end Way

/-- What a call leaves behind: its answer, the data, and the object. -/
structure Outcome (n : Nat) where
  answer : Except Error Unit
  data : Bytes
  object : Ige n

/-- Overwrite block number `i` of some data. -/
def overwrite (block : Octets n → StateM (IgeChain n) (Octets n)) (s : IgeChain n × Bytes)
    (i : Nat) : IgeChain n × Bytes :=
  match Octets.ofBytes? n ((s.2.drop (i * n)).take n) with
  | none => s
  | some b =>
    let out := (block b).run s.1
    (out.2, s.2.take (i * n) ++ (out.1.bytes ++ s.2.drop ((i + 1) * n)))

/-- A call in place. -/
def call (g : Ige n) (way : Way) (data : Bytes) : Outcome n :=
  if data.length % n ≠ 0 then ⟨.error (.crypto (.notWholeBlocks data.length n)), data, g⟩
  else
    let (chain, data) := (List.range (data.length / n)).foldl (overwrite (way.block g.cipher))
      (g.chain, data)
    ⟨.ok (), data, { g with chain }⟩

/-! ## 2. A call processes its data -/

/-- Overwriting a block leaves those before it and those behind it. -/
theorem overwrite_block (block : Octets n → StateM (IgeChain n) (Octets n))
    (before after : List (Octets n)) (b : Octets n) (s : IgeChain n) :
    overwrite block (s, Octets.join before ++ Octets.join (b :: after)) before.length =
      ((block b s).2, Octets.join (before ++ [(block b s).1]) ++ Octets.join after) := by
  have hlength : before.length * n = (Octets.join before).length := (Octets.length_join before).symm
  have hnext : (before.length + 1) * n = (Octets.join before ++ b.bytes).length := by
    rw [Nat.succ_mul, hlength, List.length_append, Octets.length_bytes]
  have hfound : ((Octets.join before ++ Octets.join (b :: after)).drop (before.length * n)).take n =
      b.bytes := by
    rw [hlength, List.drop_left, Octets.join_cons]
    exact List.take_left' b.length_bytes
  have hbehind : (Octets.join before ++ Octets.join (b :: after)).drop ((before.length + 1) * n) =
      Octets.join after := by
    rw [hnext, Octets.join_cons, ← List.append_assoc, List.drop_left]
  simp only [overwrite, hfound, Octets.ofBytes?_bytes, hbehind]
  rw [hlength, List.take_left, Octets.join_append, List.append_assoc]
  simp [Octets.join, StateT.run]

/-- Overwriting block after block, where those before are done: the blocks to come are processed
in order, each from the chain that the last one left. -/
theorem foldl_overwrite (block : Octets n → StateM (IgeChain n) (Octets n))
    (before bs : List (Octets n)) (s : IgeChain n) :
    (List.range' before.length bs.length).foldl (overwrite block)
        (s, Octets.join before ++ Octets.join bs) =
      (((bs.mapM block).run s).2, Octets.join before ++ Octets.join ((bs.mapM block).run s).1) := by
  induction bs generalizing before s with
  | nil => rfl
  | cons b bs ih =>
    -- The first block is overwritten, and is then one of those that are done.
    have hrest := ih (before ++ [(block b s).1]) (block b s).2
    rw [List.length_append] at hrest
    rw [List.length_cons, List.range'_succ, List.foldl_cons, overwrite_block,
      IgeChain.run_mapM_cons]
    simp only [List.length_cons, List.length_nil, Nat.zero_add] at hrest
    rw [hrest, Octets.join_append, Octets.join_cons, Octets.join_cons, List.append_assoc]
    simp [Octets.join]

/-- **A call in place is `process`**: it leaves the processed data and the object after them, or,
if the data are refused, everything as it was. -/
theorem call_eq (g : Ige n) (way : Way) (data : Bytes) :
    g.call way data =
      match way.process g data with
      | .ok (out, g') => ⟨.ok (), out, g'⟩
      | .error e => ⟨.error e, data, g⟩ := by
  rw [Way.process_eq]
  by_cases hwhole : data.length % n = 0
  · have hloop := foldl_overwrite (way.block g.cipher) [] (Octets.blocks n data) g.chain
    rw [Octets.join_nil, List.nil_append, List.nil_append, Octets.join_blocks hwhole,
      List.length_nil, ← List.range_eq_range', Octets.length_blocks hwhole] at hloop
    rw [call, if_neg (by simpa using hwhole), process_of_whole g _ hwhole, hloop]
  · rw [call, if_pos hwhole, process, if_pos hwhole]

theorem call_whole (g : Ige n) (way : Way) {data : Bytes} (h : data.length % n = 0) :
    ∃ out g', way.process g data = .ok (out, g') ∧ g.call way data = ⟨.ok (), out, g'⟩ := by
  have hdone := process_of_whole g (way.block g.cipher) h
  rw [← Way.process_eq] at hdone
  exact ⟨_, _, hdone, by rw [call_eq, hdone]⟩

/-- **A refused call changes nothing.** -/
theorem call_refused (g : Ige n) (way : Way) {data : Bytes} (h : data.length % n ≠ 0) :
    g.call way data = ⟨.error (.crypto (.notWholeBlocks data.length n)), data, g⟩ := by
  rw [call, if_pos h]

theorem cipher_call (g : Ige n) (way : Way) (data : Bytes) :
    (g.call way data).object.cipher = g.cipher := by
  by_cases h : data.length % n = 0
  · obtain ⟨out, g', hdone, hcall⟩ := call_whole g way h
    rw [Way.process_eq] at hdone
    obtain ⟨-, -, rfl⟩ := process_eq_ok_iff.mp hdone
    rw [hcall]
  · rw [call_refused g way h]

/-! ## 3. The opposite call -/

/-- What undoes a block undoes data, blocks of no bytes included: there are no data then. -/
theorem process_opposite {g g' : Ige n} (hc : g.cipher.Inverse) (way : Way) {data out : Bytes}
    (h : way.process g data = .ok (out, g')) : way.opposite.process g out = .ok (data, g') := by
  rw [Way.process_eq] at h ⊢
  -- Blocks of no bytes cannot be counted, but then there are no data.
  obtain hn | hn := Nat.eq_zero_or_pos n
  · subst hn
    have hlength := length_process h
    obtain ⟨hwhole, -, -⟩ := process_eq_ok_iff.mp h
    have hdata : data = [] := List.length_eq_zero_iff.mp (by simpa using hwhole)
    have hout : out = [] := List.length_eq_zero_iff.mp (by rw [hlength, hdata]; rfl)
    subst hdata hout
    exact h
  · exact process_undo hn (way.opposite_undoes hc) h

/-- **The opposite call on what a call has left**, made from where the call was made, gives the
data back and ends where the call ended. -/
theorem call_opposite {g : Ige n} (hc : g.cipher.Inverse) (way : Way) (data : Bytes) :
    g.call way.opposite (g.call way data).data = { g.call way data with data } := by
  by_cases h : data.length % n = 0
  · obtain ⟨out, g', hdone, hcall⟩ := call_whole g way h
    rw [hcall, call_eq, process_opposite hc way hdone]
  · rw [call_refused g way h, call_refused g way.opposite h]

/-! ## 4. Sequences of calls -/

/-- The object after some calls. -/
def after (g : Ige n) : List (Way × Bytes) → Ige n
  | [] => g
  | (way, data) :: calls => (g.call way data).object.after calls

/-- To each call of a sequence the opposite one, on what that call leaves in its data. -/
def echo (g : Ige n) : List (Way × Bytes) → List (Way × Bytes)
  | [] => []
  | (way, data) :: calls =>
    (way.opposite, (g.call way data).data) :: (g.call way data).object.echo calls

theorem cipher_after (g : Ige n) (calls : List (Way × Bytes)) :
    (g.after calls).cipher = g.cipher := by
  induction calls generalizing g with
  | nil => rfl
  | cons c calls ih => rw [after, ih, cipher_call]

/-- **The two objects go through the same chains**: they agree before every call, and the
opposite call takes them to the same chain again. -/
theorem after_echo {g : Ige n} (hc : g.cipher.Inverse) (calls : List (Way × Bytes)) :
    g.after (g.echo calls) = g.after calls := by
  induction calls generalizing g with
  | nil => rfl
  | cons c calls ih =>
    obtain ⟨way, data⟩ := c
    have hc' : (g.call way data).object.cipher.Inverse := by rwa [cipher_call]
    rw [echo, after, after, call_opposite hc]
    exact ih hc'

/-- **Streaming is undone by streaming.**  A vector of two blocks starts a chain.  Whatever calls
have been made of one object, in both directions and on any data, and whichever comes next: a
second object, started in the same way and called with the opposite of each, stands where the
first one stands before the call, gets the data of the call back and stands where the first one
stands after it.  Both accept whole blocks; from anything else neither changes. -/
theorem streaming_undone {c : BlockCipher n} (hc : c.Inverse) {iv : Bytes}
    (hiv : iv.length = 2 * n) :
    ∃ first, start c iv = .ok first ∧
      ∀ second, start c iv = .ok second → ∀ calls : List (Way × Bytes),
        second.after (first.echo calls) = first.after calls ∧
          ∀ way data,
            let done := (first.after calls).call way data
            let back := (second.after (first.echo calls)).call way.opposite done.data
            back.data = data ∧ back.object = done.object ∧
              (data.length % n = 0 → done.answer = .ok () ∧ back.answer = .ok ()) ∧
              (data.length % n ≠ 0 →
                done.answer = .error (.crypto (.notWholeBlocks data.length n)) ∧
                  back.answer = .error (.crypto (.notWholeBlocks data.length n)) ∧
                  done.data = data ∧ done.object = first.after calls ∧
                  back.data = done.data ∧ back.object = second.after (first.echo calls)) := by
  obtain ⟨first, hfirst⟩ := start_eq_ok (c := c) hiv
  refine ⟨first, hfirst, ?_⟩
  intro second hsecond calls
  obtain rfl : first = second := Except.ok.inj (hfirst.symm.trans hsecond)
  have hinverse : first.cipher.Inverse := by rwa [cipher_of_start hfirst]
  have hsame := after_echo hinverse calls
  refine ⟨hsame, ?_⟩
  intro way data
  have hnow : (first.after calls).cipher.Inverse := by rwa [cipher_after]
  have hback := call_opposite hnow way data
  simp only [hsame, hback, true_and]
  refine ⟨?_, ?_⟩
  · intro hwhole
    obtain ⟨out, g', -, hcall⟩ := call_whole (first.after calls) way hwhole
    rw [hcall]
    exact ⟨rfl, rfl⟩
  · intro hodd
    rw [call_refused (first.after calls) way hodd]
    exact ⟨rfl, rfl, rfl, rfl, rfl, rfl⟩

/-- AES-256 under the key of zeros, started from zeros. -/
theorem streaming_undone_aes256 :
    (Aes.aes256 (Octets.zero 32)).Inverse ∧ (List.replicate 32 (0 : UInt8)).length = 2 * 16 ∧
      ∃ first, start (Aes.aes256 (Octets.zero 32)) (List.replicate 32 0) = .ok first ∧
        ∀ calls : List (Way × Bytes), first.after (first.echo calls) = first.after calls := by
  have hiv : (List.replicate 32 (0 : UInt8)).length = 2 * 16 := by decide
  obtain ⟨first, hfirst, hrest⟩ := streaming_undone (Aes.aes256_inverse (Octets.zero 32)) hiv
  refine ⟨Aes.aes256_inverse _, hiv, first, hfirst, ?_⟩
  intro calls
  exact (hrest first hfirst calls).1

end Mtproto.Ige
