import Mathlib.Algebra.BigOperators.Ring.List
import Mathlib.Tactic.Common
import Mtproto.Proofs.Streaming

/-!
# The recurrence of a chain, and data in pieces

The blocks that come out of the chaining mode `Ige` are defined by

    c[i] = E (p[i] xor c[i-1]) xor p[i-1]
    p[i] = D (c[i] xor p[i-1]) xor c[i-1]

where the halves of the vector stand for `c[-1]` and `p[-1]`.  Read from the blocks that are given
to the blocks that are made, both lines are the same recurrence, `Recurs`, and it has one solution
(`Recurs.unique`).  A call keeps the block last given and the block last made: that these two are
`p[i-1]` and `c[i-1]`, or the other way round, is the invariant that carries `recurs_mapM` along the
blocks.

Nothing but these two blocks goes from one call to the next.

* `feed_eq_call`: so data may be cut between any two blocks.
* `recurrence_in_pieces`: for every block cipher, direction and vector, and every way to cut the
  data.
-/

namespace Mtproto

namespace Octets

variable {n : Nat}

/-- Whole blocks in front stay the same blocks. -/
theorem blocks_append {a b : Bytes} (ha : a.length % n = 0) (hb : b.length % n = 0) :
    blocks n (a ++ b) = blocks n a ++ blocks n b := by
  obtain rfl | hn := Nat.eq_zero_or_pos n
  · -- Blocks of no bytes are not counted.
    simp [blocks, splitBlocks]
  · have hjoin : join (blocks n a ++ blocks n b) = a ++ b := by
      rw [join_append, join_blocks ha, join_blocks hb]
    rw [← hjoin, blocks_join hn]

end Octets

namespace Ige

variable {n : Nat}

/-! ## 1. The recurrence -/

/-- Each block of `ys` is made from the block of `xs` at its place and from the two blocks before
them.  `x₀` and `y₀` stand before the first ones, so the block before `ys[i]` is `(y₀ :: ys)[i]`. -/
def Recurs (f : Octets n → Octets n) (x₀ y₀ : Octets n) (xs ys : List (Octets n)) : Prop :=
  ys.length = xs.length ∧ ∀ i (hx : i < xs.length) (hy : i < ys.length),
    ys.get ⟨i, hy⟩ = f (xs.get ⟨i, hx⟩ ^^^ (y₀ :: ys).get ⟨i, Nat.lt_succ_of_lt hy⟩) ^^^
      (x₀ :: xs).get ⟨i, Nat.lt_succ_of_lt hx⟩

variable {f : Octets n → Octets n} {x₀ y₀ : Octets n}

theorem recurs_nil : Recurs f x₀ y₀ [] [] := by
  refine ⟨rfl, ?_⟩
  intro i hx
  exact absurd hx (Nat.not_lt_zero i)

/-- The first block, and then the others with the first ones before them. -/
theorem recurs_cons_iff {x y : Octets n} {xs ys : List (Octets n)} :
    Recurs f x₀ y₀ (x :: xs) (y :: ys) ↔ y = f (x ^^^ y₀) ^^^ x₀ ∧ Recurs f x y xs ys := by
  constructor
  · rintro ⟨hlength, h⟩
    refine ⟨h 0 (Nat.zero_lt_succ _) (Nat.zero_lt_succ _), Nat.succ.inj hlength, ?_⟩
    intro i hx hy
    exact h (i + 1) (Nat.succ_lt_succ hx) (Nat.succ_lt_succ hy)
  · rintro ⟨hfirst, hlength, h⟩
    refine ⟨congrArg (· + 1) hlength, ?_⟩
    intro i hx hy
    cases i with
    | zero => exact hfirst
    | succ i => exact h i (Nat.lt_of_succ_lt_succ hx) (Nat.lt_of_succ_lt_succ hy)

/-- **The recurrence leaves no choice.** -/
theorem Recurs.unique {xs ys zs : List (Octets n)} (hy : Recurs f x₀ y₀ xs ys)
    (hz : Recurs f x₀ y₀ xs zs) : ys = zs := by
  induction xs generalizing x₀ y₀ ys zs with
  | nil => rw [List.length_eq_zero_iff.mp hy.1, List.length_eq_zero_iff.mp hz.1]
  | cons x xs ih =>
    obtain ⟨y, ys, rfl⟩ := List.exists_cons_of_length_eq_add_one hy.1
    obtain ⟨z, zs, rfl⟩ := List.exists_cons_of_length_eq_add_one hz.1
    obtain ⟨rfl, hys⟩ := recurs_cons_iff.mp hy
    obtain ⟨rfl, hzs⟩ := recurs_cons_iff.mp hz
    rw [ih hys hzs]

/-! ## 2. What a call makes of its blocks -/

namespace Way

/-- What is done to a block between the two exclusive ors. -/
def cipher (way : Way) (c : BlockCipher n) : Octets n → Octets n :=
  match way with
  | encrypt => c.encrypt
  | decrypt => c.decrypt

/-- The block last given. -/
def given (way : Way) (s : IgeChain n) : Octets n :=
  match way with
  | encrypt => s.plain
  | decrypt => s.cipher

/-- The block last made. -/
def made (way : Way) (s : IgeChain n) : Octets n :=
  match way with
  | encrypt => s.cipher
  | decrypt => s.plain

/-- The chain after a block `x` has been given and `y` has been made of it. -/
def chain (way : Way) (x y : Octets n) : IgeChain n :=
  match way with
  | encrypt => ⟨y, x⟩
  | decrypt => ⟨x, y⟩

@[simp] theorem given_chain (way : Way) (x y : Octets n) : way.given (way.chain x y) = x := by
  cases way <;> rfl

@[simp] theorem made_chain (way : Way) (x y : Octets n) : way.made (way.chain x y) = y := by
  cases way <;> rfl

@[simp] theorem chain_given_made (way : Way) (s : IgeChain n) :
    way.chain (way.given s) (way.made s) = s := by
  cases way <;> rfl

/-- One block, either way. -/
theorem block_eq (way : Way) (c : BlockCipher n) (b : Octets n) (s : IgeChain n) :
    way.block c b s =
      (way.cipher c (b ^^^ way.made s) ^^^ way.given s,
        way.chain b (way.cipher c (b ^^^ way.made s) ^^^ way.given s)) := by
  cases way <;> rfl

end Way

/-- **The blocks that are made follow the recurrence**, and the chain ends with the last block of
each kind. -/
theorem recurs_mapM (way : Way) (c : BlockCipher n) (bs : List (Octets n)) (s : IgeChain n) :
    let made := ((bs.mapM (way.block c)).run s).1
    Recurs (way.cipher c) (way.given s) (way.made s) bs made ∧
      ((bs.mapM (way.block c)).run s).2 =
        way.chain (bs.getLastD (way.given s)) (made.getLastD (way.made s)) := by
  induction bs generalizing s with
  | nil => exact ⟨recurs_nil, (way.chain_given_made s).symm⟩
  | cons b bs ih =>
    obtain ⟨hrecurs, hchain⟩ := ih (way.block c b s).2
    rw [IgeChain.run_mapM_cons]
    simp only [Way.block_eq, Way.given_chain, Way.made_chain] at hrecurs hchain ⊢
    refine ⟨recurs_cons_iff.mpr ⟨rfl, hrecurs⟩, ?_⟩
    rw [List.getLastD_cons, List.getLastD_cons]
    exact hchain

/-- A call on whole blocks, by the recurrence. -/
theorem exists_call (g : Ige n) (way : Way) {data : Bytes} (h : data.length % n = 0) :
    ∃ xs ys, Octets.join xs = data ∧
      (∀ ys', Recurs (way.cipher g.cipher) (way.given g.chain) (way.made g.chain) xs ys' ↔
        ys' = ys) ∧
      g.call way data = ⟨.ok (), Octets.join ys, ⟨g.cipher,
        way.chain (xs.getLastD (way.given g.chain)) (ys.getLastD (way.made g.chain))⟩⟩ := by
  obtain ⟨hrecurs, hchain⟩ := recurs_mapM way g.cipher (Octets.blocks n data) g.chain
  refine ⟨Octets.blocks n data,
    (((Octets.blocks n data).mapM (way.block g.cipher)).run g.chain).1, Octets.join_blocks h, ?_, ?_⟩
  · intro ys'
    constructor
    · intro h'
      exact h'.unique hrecurs
    · rintro rfl
      exact hrecurs
  · rw [call_eq, Way.process_eq, process_of_whole g _ h, ← hchain]

/-! ## 3. Pieces -/

theorem run_mapM_append (f : Octets n → StateM (IgeChain n) (Octets n)) (as bs : List (Octets n))
    (s : IgeChain n) :
    ((as ++ bs).mapM f).run s =
      (((as.mapM f).run s).1 ++ ((bs.mapM f).run ((as.mapM f).run s).2).1,
        ((bs.mapM f).run ((as.mapM f).run s).2).2) := by
  induction as generalizing s with
  | nil => rfl
  | cons a as ih =>
    rw [List.cons_append, IgeChain.run_mapM_cons, IgeChain.run_mapM_cons, ih]
    rfl

/-- **A call may be cut between two blocks.** -/
theorem call_append (g : Ige n) (way : Way) {a b : Bytes} (ha : a.length % n = 0)
    (hb : b.length % n = 0) :
    g.call way (a ++ b) =
      ⟨.ok (), (g.call way a).data ++ ((g.call way a).object.call way b).data,
        ((g.call way a).object.call way b).object⟩ := by
  have hab : (a ++ b).length % n = 0 := by
    rw [List.length_append, Nat.add_mod, ha, hb, Nat.add_zero, Nat.zero_mod]
  simp only [call_eq, Way.process_eq, process_of_whole _ _ ha, process_of_whole _ _ hb,
    process_of_whole _ _ hab, Octets.blocks_append ha hb, run_mapM_append, Octets.join_append]

/-- Calls on one piece after the other, up to the first that is refused: the data are those of all
pieces, one behind the other. -/
def feed (g : Ige n) (way : Way) : List Bytes → Outcome n
  | [] => ⟨.ok (), [], g⟩
  | piece :: pieces =>
    let done := g.call way piece
    match done.answer with
    | .error e => ⟨.error e, done.data ++ pieces.flatten, done.object⟩
    | .ok () =>
      let rest := done.object.feed way pieces
      ⟨rest.answer, done.data ++ rest.data, rest.object⟩

theorem call_nil (g : Ige n) (way : Way) : g.call way [] = ⟨.ok (), [], g⟩ := by
  have hwhole : ([] : Bytes).length % n = 0 := Nat.zero_mod n
  rw [call_eq, Way.process_eq, process_of_whole g _ hwhole]
  have hblocks : Octets.blocks n [] = [] := by simp [Octets.blocks, Octets.splitBlocks]
  rw [hblocks]
  rfl

/-- **Pieces of whole blocks are processed as the data that they are cut from.** -/
theorem feed_eq_call (g : Ige n) (way : Way) {pieces : List Bytes}
    (h : ∀ piece ∈ pieces, piece.length % n = 0) :
    g.feed way pieces = g.call way pieces.flatten := by
  induction pieces generalizing g with
  | nil => exact (call_nil g way).symm
  | cons piece pieces ih =>
    have hpiece := h piece List.mem_cons_self
    have hpieces : ∀ p ∈ pieces, p.length % n = 0 := fun p hp => h p (List.mem_cons_of_mem _ hp)
    have hflatten : pieces.flatten.length % n = 0 := by
      rw [List.length_flatten]
      refine Nat.mod_eq_zero_of_dvd (List.dvd_sum ?_)
      intro len hlen
      obtain ⟨p, hp, rfl⟩ := List.mem_map.mp hlen
      exact Nat.dvd_of_mod_eq_zero (hpieces p hp)
    obtain ⟨out, g', -, hcall⟩ := call_whole g way hpiece
    obtain ⟨out', g'', -, hrest⟩ := call_whole g' way hflatten
    rw [List.flatten_cons, call_append g way hpiece hflatten, feed, hcall]
    simp only [ih g' hpieces, hrest]

/-! ## 4. From a vector -/

/-- **A chain makes the blocks of its recurrence, however the data are cut.**  A vector of two
blocks gives `c₀`, its first half, and `p₀`, its second half.  Of whole blocks

* encryption makes the only blocks with `c[i] = E (p[i] xor c[i-1]) xor p[i-1]`,
* decryption makes the only blocks with `p[i] = D (c[i] xor p[i-1]) xor c[i-1]`,

and both leave the last blocks of each kind in the chain.  Pieces of whole blocks, one after the
other, give the same data and the same chain as one call on all of them. -/
theorem recurrence_in_pieces (c : BlockCipher n) {iv : Bytes} (hiv : iv.length = 2 * n) :
    ∃ c₀ p₀ : Octets n, c₀.bytes = iv.take n ∧ p₀.bytes = iv.drop n ∧
      ∃ g : Ige n, start c iv = .ok g ∧ ∀ data : Bytes, data.length % n = 0 →
        (∃ ps cs, Octets.join ps = data ∧ (∀ cs', Recurs c.encrypt p₀ c₀ ps cs' ↔ cs' = cs) ∧
          g.call .encrypt data =
            ⟨.ok (), Octets.join cs, ⟨c, ⟨cs.getLastD c₀, ps.getLastD p₀⟩⟩⟩) ∧
        (∃ cs ps, Octets.join cs = data ∧ (∀ ps', Recurs c.decrypt c₀ p₀ cs ps' ↔ ps' = ps) ∧
          g.call .decrypt data =
            ⟨.ok (), Octets.join ps, ⟨c, ⟨cs.getLastD c₀, ps.getLastD p₀⟩⟩⟩) ∧
        ∀ (way : Way) (pieces : List Bytes), pieces.flatten = data →
          (∀ piece ∈ pieces, piece.length % n = 0) → g.feed way pieces = g.call way data := by
  obtain ⟨c₀, p₀, hc₀, hp₀, hstart⟩ := exists_start c hiv
  refine ⟨c₀, p₀, hc₀, hp₀, _, hstart, ?_⟩
  intro data hwhole
  let g : Ige n := ⟨c, ⟨c₀, p₀⟩⟩
  refine ⟨exists_call g .encrypt hwhole, exists_call g .decrypt hwhole, ?_⟩
  rintro way pieces rfl hpieces
  exact feed_eq_call _ way hpieces

/-- AES-256 under the key of zeros, on three blocks that come as one and two. -/
theorem recurrence_in_pieces_aes256 :
    let c := Aes.aes256 (Octets.zero 32)
    let iv : Bytes := List.replicate 32 0
    let pieces : List Bytes := [List.replicate 16 1, List.replicate 32 2]
    iv.length = 2 * 16 ∧ pieces.flatten.length % 16 = 0 ∧
      (∀ piece ∈ pieces, piece.length % 16 = 0) ∧
      ∃ g, start c iv = .ok g ∧
        g.feed .encrypt pieces = g.call .encrypt (List.replicate 16 1 ++ List.replicate 32 2) := by
  intro c iv pieces
  have hiv : iv.length = 2 * 16 := by decide
  have hdata : pieces.flatten.length % 16 = 0 := by decide
  have hpieces : ∀ piece ∈ pieces, piece.length % 16 = 0 := by decide
  obtain ⟨_, _, -, -, g, hstart, hcalls⟩ := recurrence_in_pieces c hiv
  obtain ⟨-, -, hcut⟩ := hcalls pieces.flatten hdata
  exact ⟨hiv, hdata, hpieces, g, hstart, hcut .encrypt pieces rfl hpieces⟩

end Ige

end Mtproto
