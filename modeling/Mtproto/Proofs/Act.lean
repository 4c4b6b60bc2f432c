import Mathlib.Data.List.Forall2
import Mathlib.Tactic.Common
import Mtproto.Act
import Mtproto.Proofs.Bytes

/-!
# Laws of procedures and draws

`Draw` and `Act` are the two kinds of procedure of this library.  A draw takes random bytes from a
tape; an act works on a state as well, and may halt with an error or with a fault.  Both are
functions of a state that give a result or a halt together with the state they leave, so the laws of
sequencing hold for both and are stated once.

* `bind_eq_ok_iff`: a sequence ends well exactly if its first part does and then its second part,
  from what the first has left.  Proofs about handlers use it to take a run apart into its checks.
* `state_bind`, `update_bind`, `ofExcept_ok_bind` and the others like them: what one step does in
  front of a procedure.
* `Act.Keeps f m`: the procedure `m` leaves the part `f` of the state as it is, whether it ends well
  or halts.  The rules `Keeps.bind`, `Keeps.ite`, `keeps_zoom` and so on follow the steps.
* `Entropy.Blank` and `Entropy.sparse`: tapes that can be computed with, for runs on fixed inputs.
-/

namespace Mtproto

/-! ## 1. Sequencing -/

section Sequencing

variable {ε σ α β : Type}

/-- What a run comes to is a pair, also where the pair is wrapped. -/
theorem ok_pair_eq_iff {a b : α} {s t : σ} :
    (((.ok a, s) : Id (Except ε α × σ)) = (.ok b, t)) ↔ a = b ∧ s = t := by
  constructor
  · intro h
    cases h
    exact ⟨rfl, rfl⟩
  · rintro ⟨rfl, rfl⟩
    rfl

theorem error_pair_ne_ok {e : ε} {b : α} {s t : σ} :
    ¬ (((.error e, s) : Id (Except ε α × σ)) = (.ok b, t)) := by
  intro h
  cases h

/-- A sequence of two procedures: where the first halts, the second is not run, and the state is the
one in which the first has halted. -/
theorem run_bind (x : ExceptT ε (StateM σ) α) (f : α → ExceptT ε (StateM σ) β) (s : σ) :
    (x >>= f) s = match x s with
      | (.ok a, t) => f a t
      | (.error e, t) => (.error e, t) := by
  change (match x s with | (a, t) => ExceptT.bindCont f a t) = _
  rcases x s with ⟨_ | _, t⟩ <;> rfl

theorem run_bind_ok {x : ExceptT ε (StateM σ) α} {f : α → ExceptT ε (StateM σ) β} {s t : σ} {a : α}
    (h : x s = (.ok a, t)) : (x >>= f) s = f a t := by
  rw [run_bind, h]

/-- What has been changed before a halt is not taken back by catching it. -/
theorem run_tryCatch (x : ExceptT ε (StateM σ) α) (f : ε → ExceptT ε (StateM σ) α) (s : σ) :
    (tryCatch x f) s = match x s with
      | (.ok a, t) => (.ok a, t)
      | (.error e, t) => f e t := by
  simp only [tryCatch, tryCatchThe, MonadExceptOf.tryCatch, ExceptT.tryCatch, ExceptT.mk, bind,
    StateT.bind]
  rcases x s with ⟨_ | _, t⟩ <;> rfl

/-- A sequence ends well if its first step does and then the rest does. -/
theorem bind_eq_ok_iff {x : ExceptT ε (StateM σ) α} {f : α → ExceptT ε (StateM σ) β} {s u : σ}
    {b : β} : (x >>= f) s = (.ok b, u) ↔ ∃ a t, x s = (.ok a, t) ∧ f a t = (.ok b, u) := by
  rw [run_bind]
  constructor
  · intro h
    rcases hx : x s with ⟨e | a, t⟩
    · rw [hx] at h
      exact absurd h error_pair_ne_ok
    · rw [hx] at h
      exact ⟨a, t, rfl, h⟩
  · rintro ⟨a, t, hx, hf⟩
    rw [hx]
    exact hf

end Sequencing

/-! ## 2. Draws -/

namespace Draw

/-- A draw of `n` octets takes the next `n` bytes of the tape, and there are always enough. -/
theorem run_octets (n : Nat) (e : Entropy) :
    octets n e = (.ok ⟨e.peek n, e.length_peek n⟩, e.skip n) := rfl

end Draw

namespace Entropy

/-- Draws are made one after another: skipping twice is skipping once. -/
theorem skip_skip (e : Entropy) (m n : Nat) : (e.skip m).skip n = e.skip (m + n) := by
  simp [skip, Nat.add_assoc]

/-- The tape that starts with given bytes, read from its beginning. -/
def starting (bs : Bytes) : Entropy :=
  { byte := fun i => bs.getD i 0, drawn := 0 }

theorem peek_starting (bs : Bytes) : (starting bs).peek bs.length = bs := by
  refine List.ext_getElem (by simp) ?_
  intro i _ h
  simp [peek, starting, h]

/-- The next bytes are all zero. -/
def Blank (e : Entropy) (n : Nat) : Prop :=
  ∀ i < n, e.byte (e.drawn + i) = 0

theorem peek_of_blank {e : Entropy} {n : Nat} (h : e.Blank n) : e.peek n = List.replicate n 0 := by
  refine List.eq_replicate_iff.mpr ⟨e.length_peek n, ?_⟩
  intro b hb
  obtain ⟨i, hi, rfl⟩ := List.mem_map.mp hb
  exact h i (List.mem_range.mp hi)

/-- A blank stretch is blank from its beginning on. -/
theorem Blank.left {e : Entropy} {m n : Nat} (h : e.Blank (m + n)) : e.Blank m :=
  fun i hi => h i (by omega)

/-- What remains of a blank stretch is blank. -/
theorem Blank.skip {e : Entropy} {m n : Nat} (h : e.Blank (m + n)) : (e.skip m).Blank n := by
  intro i hi
  rw [Entropy.skip, Nat.add_assoc]
  exact h (m + i) (by omega)

/-- A tape of zero bytes, but for a few. -/
def sparse (bytes : List (Nat × UInt8)) : Entropy :=
  { byte := fun i => (bytes.lookup i).getD 0 }

theorem blank_sparse {bytes : List (Nat × UInt8)} {m n : Nat}
    (h : ∀ p ∈ bytes, p.1 < m ∨ m + n ≤ p.1) : ((sparse bytes).skip m).Blank n := by
  intro i hi
  have hnone : bytes.lookup (m + i) = none := by
    refine List.lookup_eq_none_iff.mpr ?_
    intro p hp
    rw [bne_iff_ne]
    have := h p hp
    omega
  simp [skip, sparse, hnone]

/-- Zero bytes and then a one are a one. -/
theorem ofBE_peek_of_blank {e : Entropy} {n : Nat} (h : e.Blank n)
    (hlast : e.byte (e.drawn + n) = 1) :
    Bytes.ofBE (e.peek (n + 1)) = 1 := by
  have hpeek : e.peek (n + 1) = e.peek n ++ [1] := by
    simp [peek, List.range_succ, hlast]
  rw [hpeek, peek_of_blank h, Bytes.ofBE_zeros_append]
  rfl

end Entropy

/-! ## 3. Procedures

Each step of a procedure has one lemma that says what a procedure starting with it does.  They
are simplification lemmas, so a procedure that has ended well turns into what each of its steps
has found. -/

namespace Act

variable {σ α β : Type} {s u : σ × Entropy} {b : β}

@[simp] theorem state_bind (k : σ → Act σ β) : (state >>= k) s = k s.1 s := (rfl)

@[simp] theorem update_bind (f : σ → σ) (k : Unit → Act σ β) :
    (update f >>= k) s = k () (f s.1, s.2) := (rfl)

@[simp] theorem fail_bind (e : Error) (k : α → Act σ β) : (fail e >>= k) = fail e := (rfl)

@[simp] theorem ofExcept_ok_bind (a : α) (k : α → Act σ β) :
    (ofExcept (.ok a) >>= k) = k a := (rfl)

@[simp] theorem octets_bind (n : Nat) (k : Octets n → Act σ β) :
    (draw (Draw.octets n) >>= k) s = k ⟨s.2.peek n, s.2.length_peek n⟩ (s.1, s.2.skip n) := (rfl)

@[simp] theorem bytes_bind (n : Nat) (k : Bytes → Act σ β) :
    (draw (Draw.bytes n) >>= k) s = k (s.2.peek n) (s.1, s.2.skip n) := (rfl)

@[simp] theorem word64_bind (k : UInt64 → Act σ β) :
    (draw Draw.word64 >>= k) s =
      k (UInt64.ofNat (Bytes.ofLE (s.2.peek 8))) (s.1, s.2.skip 8) := (rfl)

@[simp] theorem pure_eq_ok_iff {a : β} : (pure a : Act σ β) s = (.ok b, u) ↔ b = a ∧ u = s :=
  ok_pair_eq_iff.trans (and_congr eq_comm eq_comm)

@[simp] theorem fail_eq_ok_iff {e : Error} : (fail e : Act σ β) s = (.ok b, u) ↔ False :=
  iff_of_false error_pair_ne_ok id

@[simp] theorem update_eq_ok_iff {f : σ → σ} {a : Unit} :
    (update f : Act σ Unit) s = (.ok a, u) ↔ u = (f s.1, s.2) :=
  ok_pair_eq_iff.trans ((and_iff_right rfl).trans eq_comm)

@[simp] theorem ofExcept_eq_ok_iff {r : Except Error β} :
    (ofExcept r : Act σ β) s = (.ok b, u) ↔ r = .ok b ∧ u = s := by
  cases r with
  | error e => exact iff_of_false error_pair_ne_ok (by simp)
  | ok a => exact ok_pair_eq_iff.trans (and_congr (by simp) eq_comm)

@[simp] theorem ofExcept_bind_eq_ok_iff {r : Except Error α} {k : α → Act σ β} :
    (ofExcept r >>= k) s = (.ok b, u) ↔ ∃ a, r = .ok a ∧ k a s = (.ok b, u) := by
  cases r with
  | error e => exact iff_of_false error_pair_ne_ok (by simp)
  | ok a => exact ⟨fun h => ⟨a, rfl, h⟩, fun ⟨_, ha, h⟩ => by cases ha; exact h⟩

@[simp] theorem ofFault_bind_eq_ok_iff {r : Except Fault α} {k : α → Act σ β} :
    (ofFault r >>= k) s = (.ok b, u) ↔ ∃ a, r = .ok a ∧ k a s = (.ok b, u) := by
  cases r with
  | error e => exact iff_of_false error_pair_ne_ok (by simp)
  | ok a => exact ⟨fun h => ⟨a, rfl, h⟩, fun ⟨_, ha, h⟩ => by cases ha; exact h⟩

@[simp] theorem draw_bind_eq_ok_iff {d : Draw α} {k : α → Act σ β} :
    (draw d >>= k) s = (.ok b, u) ↔ ∃ a e, d s.2 = (.ok a, e) ∧ k a (s.1, e) = (.ok b, u) := by
  obtain ⟨s, tape⟩ := s
  rcases hrun : d tape with ⟨f | c, e⟩
  · have hdraw : (draw d : Act σ α) (s, tape) = (.error (.fault f), s, e) := by
      simp only [draw, hrun]
    rw [run_bind, hdraw]
    exact iff_of_false error_pair_ne_ok fun ⟨_, _, h, _⟩ => error_pair_ne_ok h
  · have hdraw : (draw d : Act σ α) (s, tape) = (.ok c, s, e) := by
      simp only [draw, hrun]
    rw [run_bind_ok hdraw]
    constructor
    · intro h
      exact ⟨c, e, rfl, h⟩
    · rintro ⟨a, e', hd, hk⟩
      obtain ⟨rfl, rfl⟩ := ok_pair_eq_iff.mp hd
      exact hk

@[simp] theorem drawExcept_bind_eq_ok_iff {d : Draw (Except Error α)} {k : α → Act σ β} :
    (drawExcept d >>= k) s = (.ok b, u) ↔
      ∃ a e, d s.2 = (.ok (.ok a), e) ∧ k a (s.1, e) = (.ok b, u) := by
  rw [drawExcept, bind_assoc, draw_bind_eq_ok_iff]
  simp only [ofExcept_bind_eq_ok_iff]
  constructor
  · rintro ⟨r, e, hd, a, rfl, hk⟩
    exact ⟨a, e, hd, hk⟩
  · rintro ⟨a, e, hd, hk⟩
    exact ⟨.ok a, e, hd, a, rfl, hk⟩

/-- A check in front, which fails if the condition holds. -/
@[simp] theorem ite_fail_eq_ok_iff {c : Prop} [Decidable c] {e : Error} {m : Act σ β} :
    (if c then fail e else m) s = (.ok b, u) ↔ ¬ c ∧ m s = (.ok b, u) := by
  by_cases hc : c
  · rw [if_pos hc]
    exact iff_of_false error_pair_ne_ok fun h => h.1 hc
  · rw [if_neg hc, and_iff_right hc]

/-- A check in front, which fails unless the condition holds. -/
@[simp] theorem ite_else_fail_eq_ok_iff {c : Prop} [Decidable c] {e : Error} {m : Act σ β} :
    (if c then m else fail e) s = (.ok b, u) ↔ c ∧ m s = (.ok b, u) := by
  by_cases hc : c
  · rw [if_pos hc, and_iff_right hc]
  · rw [if_neg hc]
    exact iff_of_false error_pair_ne_ok fun h => hc h.1

/-! ## 4. What is left behind

A procedure that halts leaves the state as it is at that moment.  `HaltKeeps f m` says that no
halt of `m` has changed what `f` sees of the state; `Keeps f m`, that `m` never changes it. -/

variable {τ : Type} {f : σ → τ}

/-- Whatever comes of `m`, what `f` sees of the state is as before. -/
def Keeps (f : σ → τ) (m : Act σ α) : Prop :=
  ∀ s, f (m s).2.1 = f s.1

/-- Where `m` halts, what `f` sees of the state is as before. -/
def HaltKeeps (f : σ → τ) (m : Act σ α) : Prop :=
  ∀ s h t, m s = (.error h, t) → f t.1 = f s.1

/-- What is kept always is kept if the procedure halts. -/
theorem Keeps.halt {m : Act σ α} (hm : Keeps f m) : HaltKeeps f m := by
  intro s h t hrun
  have := hm s
  rwa [hrun] at this

/-- The first procedure has to keep the field in any case, the second only if it halts. -/
theorem HaltKeeps.bind {m : Act σ α} {k : α → Act σ β} (hm : Keeps f m)
    (hk : ∀ a, HaltKeeps f (k a)) : HaltKeeps f (m >>= k) := by
  intro s h t hrun
  have hs := hm s
  rw [run_bind] at hrun
  rcases hms : m s with ⟨h' | a, s'⟩
  · rw [hms] at hs hrun
    cases hrun
    exact hs
  · rw [hms] at hs hrun
    exact (hk a s' h t hrun).trans hs

theorem Keeps.bind {m : Act σ α} {k : α → Act σ β} (hm : Keeps f m) (hk : ∀ a, Keeps f (k a)) :
    Keeps f (m >>= k) := by
  intro s
  have hs := hm s
  rw [run_bind]
  rcases hms : m s with ⟨h' | a, s'⟩
  · rw [hms] at hs
    exact hs
  · rw [hms] at hs
    exact (hk a s').trans hs

/-- The last step that may halt. -/
theorem HaltKeeps.map {m : Act σ α} {g : α → β} (hm : HaltKeeps f m) :
    HaltKeeps f (m >>= fun a => pure (g a)) := by
  intro s h t hrun
  rw [run_bind] at hrun
  rcases hms : m s with ⟨h' | a, s'⟩
  · rw [hms] at hrun
    cases hrun
    exact hm s _ _ hms
  · rw [hms] at hrun
    cases hrun

theorem HaltKeeps.ite {c : Prop} [Decidable c] {m k : Act σ α} (hm : HaltKeeps f m)
    (hk : HaltKeeps f k) : HaltKeeps f (if c then m else k) := by
  split
  · exact hm
  · exact hk

theorem Keeps.ite {c : Prop} [Decidable c] {m k : Act σ α} (hm : Keeps f m) (hk : Keeps f k) :
    Keeps f (if c then m else k) := by
  split
  · exact hm
  · exact hk

/-- A field that neither the procedure nor what is done about its halts changes is kept. -/
theorem Keeps.tryCatch {m : Act σ α} {k : Halt → Act σ α} (hm : Keeps f m)
    (hk : ∀ h, Keeps f (k h)) : Keeps f (tryCatch m k) := by
  intro s
  have hs := hm s
  rw [run_tryCatch]
  rcases hms : m s with ⟨h | a, s'⟩
  · rw [hms] at hs
    exact (hk h s').trans hs
  · rw [hms] at hs
    exact hs

/-- A loop keeps what each of its rounds keeps. -/
theorem Keeps.forM {as : List α} {k : α → Act σ PUnit} (hk : ∀ a, Keeps f (k a)) :
    Keeps f (as.forM k) := by
  induction as with
  | nil => exact fun _ => rfl
  | cons a as ih => exact (hk a).bind fun _ => ih

/-- A procedure on a part of the state that `f` does not see. -/
theorem keeps_zoom {ρ : Type} {part : σ → ρ} {put : ρ → σ → σ} (a : Act ρ α)
    (h : ∀ r s, f (put r s) = f s) : Keeps f (zoom part put a) :=
  fun s => h (a (part s.1, s.2)).2.1 s.1

theorem keeps_pure (a : α) : Keeps f (pure a : Act σ α) := fun _ => rfl

theorem keeps_throw (h : Halt) : Keeps f (throw h : Act σ α) := fun _ => rfl

theorem keeps_state : Keeps f (state : Act σ σ) := fun _ => rfl

theorem keeps_fail (e : Error) : Keeps f (fail e : Act σ α) := fun _ => rfl

/-- An update keeps what it does not touch; this is where a field is looked at. -/
theorem keeps_update {g : σ → σ} (h : ∀ s, f (g s) = f s) : Keeps f (update g) := fun s => h s.1

theorem keeps_ofExcept (r : Except Error α) : Keeps f (ofExcept r : Act σ α) := by
  cases r <;> exact fun _ => rfl

theorem keeps_ofFault (r : Except Fault α) : Keeps f (ofFault r : Act σ α) := by
  cases r <;> exact fun _ => rfl

/-- A draw changes the tape only. -/
theorem keeps_draw (d : Draw α) : Keeps f (draw d : Act σ α) := by
  rintro ⟨s, e⟩
  rcases hd : d e with ⟨_ | a, e'⟩ <;> simp only [draw, hd]

theorem keeps_drawExcept (d : Draw (Except Error α)) : Keeps f (drawExcept d : Act σ α) :=
  (keeps_draw d).bind keeps_ofExcept

end Act

/-! ## 5. Results -/

theorem except_bind_eq_ok_iff {ε α β : Type} {x : Except ε α} {f : α → Except ε β} {b : β} :
    (x >>= f) = .ok b ↔ ∃ a, x = .ok a ∧ f a = .ok b := by
  cases x <;> simp [bind, Except.bind]

/-- What stands on the right has something on the left. -/
theorem exists_of_forall₂ {α β : Type} {R : α → β → Prop} {as : List α} {bs : List β}
    (h : List.Forall₂ R as bs) {b : β} (hb : b ∈ bs) : ∃ a ∈ as, R a b := by
  induction h with
  | nil => cases hb
  | cons hab _ ih =>
    rcases List.mem_cons.mp hb with rfl | hb
    · exact ⟨_, List.mem_cons_self, hab⟩
    · obtain ⟨a, ha, hr⟩ := ih hb
      exact ⟨a, List.mem_cons_of_mem _ ha, hr⟩

/-- One result for each item. -/
theorem mapM_eq_ok_iff {ε α β : Type} {f : α → Except ε β} {as : List α} {bs : List β} :
    as.mapM f = .ok bs ↔ List.Forall₂ (fun a b => f a = .ok b) as bs := by
  induction as generalizing bs with
  | nil => simp [pure, Except.pure, eq_comm]
  | cons a as ih =>
    simp only [List.mapM_cons, except_bind_eq_ok_iff, ih, List.forall₂_cons_left_iff, pure,
      Except.pure, Except.ok.injEq]
    constructor
    · rintro ⟨b, hb, bs, hbs, rfl⟩
      exact ⟨b, bs, hb, hbs, rfl⟩
    · rintro ⟨b, bs, hb, hbs, rfl⟩
      exact ⟨b, hb, bs, hbs, rfl⟩

theorem DecodeError.lift_ok {α : Type} (a : α) : DecodeError.lift (.ok a) = .ok a := rfl

/-- Passing to the errors of a higher layer keeps results. -/
@[simp] theorem DecodeError.lift_eq_ok_iff {α : Type} {r : Except DecodeError α} {a : α} :
    DecodeError.lift r = .ok a ↔ r = .ok a := by
  cases r <;> simp [DecodeError.lift, Except.mapError]

/-- An error of decoding comes out under its own name. -/
theorem DecodeError.lift_eq_error_iff {α : Type} {r : Except DecodeError α} {error : Error} :
    DecodeError.lift r = .error error ↔ ∃ e, r = .error e ∧ error = .decode e := by
  cases r <;> simp [DecodeError.lift, Except.mapError, eq_comm]

end Mtproto
