import Mathlib.Tactic.Common
import Mtproto.Proofs.Act

/-!
# Assertions about procedures

`Triple P m Q E` says what comes of a procedure `m` where `P` holds of the state: a result and a
state with `Q`, or a halt and a state with `E`.  Nothing is said of the tape, so a triple holds for
all tapes.  Halts have an assertion of their own because what a procedure has done before it halts
stays done.

The rules follow the steps that procedures are made of.

* `Triple.bind`, `Triple.ite`, `Triple.forM`, `Triple.tryCatch`: one rule for each way to put them
  together.
* `Triple.state_bind`, `Triple.update_bind`, `Triple.ofExcept_bind` and the others: one rule for
  each step in front of a procedure.
* `Triple.look`: most steps only look.  They give a value or halt and leave the state alone
  (`Keeps id`), and this rule passes them by.
-/

namespace Mtproto.Act

variable {σ τ α β : Type} {P I : σ → Prop} {Q : α → σ → Prop} {R : β → σ → Prop}
  {E F : Halt → σ → Prop}

/-- What comes of a procedure: `Q` of the result and the state, or `E` of the halt and the state. -/
def Triple (P : σ → Prop) (m : Act σ α) (Q : α → σ → Prop) (E : Halt → σ → Prop) : Prop :=
  ∀ s e, P s → match m (s, e) with
    | (.ok a, t) => Q a t.1
    | (.error h, t) => E h t.1

/-! ## 1. Reading a triple -/

/-- What is asserted of a procedure holds of each of its results. -/
theorem Triple.ok {m : Act σ α} (hm : Triple P m Q E) {s t : σ} {e e' : Entropy} {a : α}
    (hP : P s) (hrun : m (s, e) = (.ok a, t, e')) : Q a t := by
  have := hm s e hP
  rwa [hrun] at this

/-- What is asserted of its halts holds of each of them. -/
theorem Triple.error {m : Act σ α} (hm : Triple P m Q E) {s t : σ} {e e' : Entropy} {h : Halt}
    (hP : P s) (hrun : m (s, e) = (.error h, t, e')) : E h t := by
  have := hm s e hP
  rwa [hrun] at this

/-- One state at a time. -/
theorem Triple.of_eq {m : Act σ α} (hm : ∀ s, P s → Triple (· = s) m Q E) : Triple P m Q E :=
  fun s e hs => hm s hs s e rfl

/-- A weaker statement. -/
theorem Triple.weaken {m : Act σ α} {Q' : α → σ → Prop} (hm : Triple P m Q E)
    (hI : ∀ s, I s → P s) (hQ : ∀ a s, Q a s → Q' a s) (hE : ∀ h s, E h s → F h s) :
    Triple I m Q' F := by
  intro s e hs
  have := hm s e (hI s hs)
  rcases hrun : m (s, e) with ⟨h | a, t⟩
  · rw [hrun] at this
    exact hE h t.1 this
  · rw [hrun] at this
    exact hQ a t.1 this

theorem Triple.pre {m : Act σ α} (hm : Triple P m Q E) (hI : ∀ s, I s → P s) : Triple I m Q E :=
  hm.weaken hI (fun _ _ h => h) fun _ _ h => h

/-- Assertions about results and halts may be weakened. -/
theorem Triple.post {m : Act σ α} {Q' : α → σ → Prop} (hm : Triple P m Q E)
    (hQ : ∀ a s, Q a s → Q' a s) (hE : ∀ h s, E h s → F h s) : Triple P m Q' F :=
  hm.weaken (fun _ h => h) hQ hE

theorem Triple.halts {m : Act σ α} (hm : Triple P m Q E) (hE : ∀ h s, E h s → F h s) :
    Triple P m Q F :=
  hm.post (fun _ _ h => h) hE

/-- Two statements about the same procedure. -/
theorem Triple.and {m : Act σ α} {Q' : α → σ → Prop} (hm : Triple P m Q E) (hm' : Triple I m Q' F) :
    Triple (fun s => P s ∧ I s) m (fun a s => Q a s ∧ Q' a s) fun h s => E h s ∧ F h s := by
  rintro s e ⟨hP, hI⟩
  have h := hm s e hP
  have h' := hm' s e hI
  rcases hrun : m (s, e) with ⟨halt | a, t⟩
  · rw [hrun] at h h'
    exact ⟨h, h'⟩
  · rw [hrun] at h h'
    exact ⟨h, h'⟩

/-- What no run changes is kept. -/
theorem Keeps.of_triple {f : σ → τ} {m : Act σ α}
    (hm : ∀ s, Triple (· = s) m (fun _ s' => f s' = f s) fun _ s' => f s' = f s) : Keeps f m := by
  intro s
  have := hm s.1 s.1 s.2 rfl
  rcases hrun : m s with ⟨h | a, t⟩
  · rwa [hrun] at this
  · rwa [hrun] at this

/-- What is kept remains true. -/
theorem Keeps.triple {f : σ → τ} {m : Act σ α} (hm : Keeps f m)
    (hP : ∀ s s', f s' = f s → P s → P s') : Triple P m (fun _ => P) fun _ => P := by
  intro s e hs
  have hkeep : f (m (s, e)).2.1 = f s := hm (s, e)
  rcases hrun : m (s, e) with ⟨h | a, t⟩
  · rw [hrun] at hkeep
    exact hP s t.1 hkeep hs
  · rw [hrun] at hkeep
    exact hP s t.1 hkeep hs

/-- What is kept is the same afterwards. -/
theorem Keeps.triple_eq {f : σ → τ} {m : Act σ α} (hm : Keeps f m) (s : σ) :
    Triple (· = s) m (fun _ s' => f s' = f s) fun _ s' => f s' = f s :=
  (hm.triple (P := fun s' => f s' = f s) fun _ _ hsame hs => hsame.trans hs).pre
    fun _ h => h ▸ rfl

/-! ## 2. Steps -/

theorem Triple.pure {a : α} (h : ∀ s, P s → Q a s) : Triple P (pure a) Q E :=
  fun s _ hs => h s hs

theorem Triple.throw {h : Halt} (hE : ∀ s, P s → E h s) : Triple P (throw h : Act σ α) Q E :=
  fun s _ hs => hE s hs

theorem Triple.fail {e : Error} (hE : ∀ s, P s → E (.error e) s) :
    Triple P (fail e : Act σ α) Q E :=
  .throw hE

theorem Triple.update {f : σ → σ} {Q : Unit → σ → Prop} (h : ∀ s, P s → Q () (f s)) :
    Triple P (update f) Q E :=
  fun s _ hs => h s hs

theorem Triple.ofExcept {r : Except Error α} (hok : ∀ a s, r = .ok a → P s → Q a s)
    (herror : ∀ e s, r = .error e → P s → E (.error e) s) : Triple P (ofExcept r) Q E := by
  cases r with
  | ok a => exact fun s _ hs => hok a s rfl hs
  | error e => exact fun s _ hs => herror e s rfl hs

theorem Triple.ite {c : Prop} [Decidable c] {m k : Act σ α} (hm : c → Triple P m Q E)
    (hk : ¬ c → Triple P k Q E) : Triple P (if c then m else k) Q E := by
  split
  · exact hm ‹_›
  · exact hk ‹_›

/-- A procedure on a part of the state. -/
theorem Triple.zoom {part : σ → τ} {put : τ → σ → σ} {m : Act τ α}
    (h : ∀ s, P s → Triple (· = part s) m (fun a t => Q a (put t s))
      fun halt t => E halt (put t s)) :
    Triple P (zoom part put m) Q E := by
  intro s e hs
  have := h s hs (part s) e rfl
  rcases hrun : m (part s, e) with ⟨halt | a, t, e'⟩
  · rw [hrun] at this
    simpa only [Act.zoom, hrun] using this
  · rw [hrun] at this
    simpa only [Act.zoom, hrun] using this

/-! ## 3. Sequences -/

/-- The assertion about the first procedure is what the second starts from. -/
theorem Triple.bind {m : Act σ α} {k : α → Act σ β} (hm : Triple P m Q E)
    (hk : ∀ a, Triple (Q a) (k a) R E) : Triple P (m >>= k) R E := by
  intro s e hs
  have := hm s e hs
  rw [run_bind]
  rcases hrun : m (s, e) with ⟨h | a, t⟩
  · rw [hrun] at this
    exact this
  · rw [hrun] at this
    exact hk a t.1 t.2 this

/-- The last step. -/
theorem Triple.map {m : Act σ α} {g : α → β} (hm : Triple P m (fun a => R (g a)) E) :
    Triple P (m >>= fun a => Pure.pure (g a)) R E :=
  hm.bind fun _ => .pure fun _ h => h

/-- The state is looked at. -/
theorem Triple.state_bind {k : σ → Act σ β} (hk : ∀ s, P s → Triple (· = s) (k s) R E) :
    Triple P (state >>= k) R E :=
  fun s e hs => hk s hs s e rfl

/-- An update in front of a procedure. -/
theorem Triple.update_bind {f : σ → σ} {k : Unit → Act σ β} (hf : ∀ s, P s → I (f s))
    (hk : Triple I (k ()) R E) : Triple P (Act.update f >>= k) R E :=
  fun s e hs => hk (f s) e (hf s hs)

/-- A step that leaves the state alone, and may halt anywhere. -/
theorem Triple.look {m : Act σ α} {k : α → Act σ β} (hm : Keeps id m) (hE : ∀ h s, P s → E h s)
    (hk : ∀ a, Triple P (k a) R E) : Triple P (m >>= k) R E := by
  have hsame : Triple P m (fun _ => P) fun _ => P := hm.triple fun s s' heq hs => by
    rwa [show s' = s from heq]
  exact .bind (hsame.halts hE) hk

/-- A value, or the error that there is in its place. -/
theorem Triple.ofExcept_cases {r : Except Error α} {k : α → Act σ β}
    (hE : ∀ e, r = .error e → ∀ s, P s → E (.error e) s) (hk : ∀ a, r = .ok a → Triple P (k a) R E) :
    Triple P (Act.ofExcept r >>= k) R E := by
  cases r with
  | ok a => exact hk a rfl
  | error e => exact fun s _ hs => hE e rfl s hs

theorem Triple.ofExcept_bind {r : Except Error α} {k : α → Act σ β}
    (hE : ∀ e s, P s → E (.error e) s) (hk : ∀ a, r = .ok a → Triple P (k a) R E) :
    Triple P (Act.ofExcept r >>= k) R E :=
  .ofExcept_cases (fun e _ => hE e) hk

theorem Triple.ofFault_bind {r : Except Fault α} {k : α → Act σ β}
    (hE : ∀ f s, P s → E (.fault f) s) (hk : ∀ a, r = .ok a → Triple P (k a) R E) :
    Triple P (Act.ofFault r >>= k) R E := by
  cases r with
  | ok a => exact hk a rfl
  | error f => exact fun s _ hs => hE f s hs

/-- A draw may halt, and then nothing has changed but the tape. -/
theorem Triple.draw_bind {d : Draw α} {k : α → Act σ β} (hE : ∀ f s, P s → E (.fault f) s)
    (hk : ∀ a, Triple P (k a) R E) : Triple P (Act.draw d >>= k) R E := by
  intro s e hs
  rw [run_bind]
  rcases hd : d e with ⟨f | a, e'⟩
  · simp only [Act.draw, hd]
    exact hE f s hs
  · simp only [Act.draw, hd]
    exact hk a s e' hs

/-- A draw whose result may be an error. -/
theorem Triple.drawExcept_bind {d : Draw (Except Error α)} {k : α → Act σ β}
    (hfault : ∀ f e e', d e = (.error f, e') → ∀ s, P s → E (.fault f) s)
    (hE : ∀ e s, P s → E (.error e) s)
    (hk : ∀ a e e', d e = (.ok (.ok a), e') → Triple P (k a) R E) :
    Triple P (Act.drawExcept d >>= k) R E := by
  intro s e hs
  rw [Act.drawExcept, bind_assoc, run_bind]
  rcases hd : d e with ⟨f | r, e'⟩
  · simp only [Act.draw, hd]
    exact hfault f e e' hd s hs
  · simp only [Act.draw, hd]
    exact Triple.ofExcept_bind hE (fun a ha => hk a e e' (ha ▸ hd)) s e' hs

/-- The same step for one item after the other. -/
theorem Triple.forM {f : α → Act σ PUnit} {E : Halt → σ → Prop}
    (hf : ∀ a, Triple P (f a) (fun _ => P) E) (as : List α) :
    Triple P (as.forM f) (fun _ => P) E := by
  induction as with
  | nil => exact .pure fun _ h => h
  | cons a as ih => exact (hf a).bind fun _ => ih

/-- What halts is caught and handled. -/
theorem Triple.tryCatch {m : Act σ α} {k : Halt → Act σ α} (hm : Triple P m Q F)
    (hk : ∀ h, Triple (F h) (k h) Q E) : Triple P (tryCatch m k) Q E := by
  intro s e hs
  have := hm s e hs
  rw [run_tryCatch]
  rcases hrun : m (s, e) with ⟨h | a, t⟩
  · rw [hrun] at this
    exact hk h t.1 t.2 this
  · rw [hrun] at this
    exact this

end Mtproto.Act
