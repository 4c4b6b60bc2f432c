import Mathlib.Tactic.Common
import Mtproto.Proofs.Numbering

/-!
# When formatting a message ends in a fault

A message identifier is a time of the server, so `Framer.format` shifts our clock by the offset of
the server before it looks at anything else, and stops where that leaves the calendar.  The offset
comes with the key, is not checked when the key is installed, and stays when the key is taken away
(`Framer.restore`).

So there are two ways in which a message can end in a fault, and no third: a key is needed and there
is none, or the offset that was installed last takes the clock out of the calendar.  The second has
nothing to do with the kind of the message, nor with whether there still is a key.

* `Instant.Reaches`: the calendar has the reading that is so many seconds away.
* `keyAfter`, `offsetAfter`: the key and the offset after any steps.
* `fault_of_format_iff`: the faults of one message.
* `parseWithin_eq`: what a framer is given from the other side never ends in a fault.
* `faults_iff`: all of this after any steps.
-/

namespace Mtproto

/-! ## 1. The calendar -/

/-- The calendar has the reading that is a number of seconds away. -/
def Instant.Reaches (t : Instant) (seconds : Int) : Prop :=
  firstSecond ≤ t.seconds + seconds ∧ t.seconds + seconds ≤ lastSecond

instance (t : Instant) (seconds : Int) : Decidable (t.Reaches seconds) := by
  unfold Instant.Reaches
  infer_instance

theorem Instant.shift?_of_reaches {t : Instant} {seconds : Int} (h : t.Reaches seconds) :
    t.shift? seconds = some { t with seconds := t.seconds + seconds } := if_pos h

theorem Instant.shift?_of_not_reaches {t : Instant} {seconds : Int} (h : ¬ t.Reaches seconds) :
    t.shift? seconds = none := if_neg h

namespace Framer

/-! ## 2. The key and the offset after some steps -/

/-- What a step makes of the key, if it does not leave it alone. -/
def Step.key? : Step → Option (Option Authorization)
  | .setAuth auth => some (some auth)
  | .restore auth _ => some auth
  | .call _ => none

/-- The offset that a step installs. -/
def Step.offset? : Step → Option Int64
  | .setAuth auth | .restore (some auth) _ => some auth.timeOffset
  | .call _ | .restore none _ => none

/-- The key after some steps, up to its salt: what the last step made of it that did not leave it
alone. -/
def keyAfter (initial : Option Authorization) (steps : List Step) : Option Authorization :=
  (steps.filterMap Step.key?).getLastD initial

/-- The offset after some steps: the last one that was installed. -/
def offsetAfter (initial : Int64) (steps : List Step) : Int64 :=
  (steps.filterMap Step.offset?).getLastD initial

section Step

variable (now : Instant) (step : Step) (f : Framer) (e : Entropy)

/-- Formatting moves neither key nor offset, also when it halts. -/
theorem tuning_perform_format (kind : MsgKind) (payload : Bytes) :
    (perform now (.call (.format kind payload)) (f, e)).2.1.tuning = f.tuning :=
  Act.Keeps.bind (keeps_format now kind payload) (fun _ => Act.keeps_pure _) (f, e)

theorem offset_perform :
    (perform now step (f, e)).2.1.msgIds.timeOffset = step.offset?.getD f.msgIds.timeOffset := by
  cases step with
  | call c =>
    cases c with
    | format kind payload => exact congrArg Prod.snd (tuning_perform_format now f e kind payload)
    | parse raw => rfl
    | setServerSalt salt => rfl
  | setAuth auth => rfl
  | restore auth seqNo => cases auth <;> rfl

theorem isNone_perform :
    (perform now step (f, e)).2.1.auth.isNone = (step.key?.getD f.auth).isNone := by
  cases step with
  | call c =>
    cases c with
    | format kind payload =>
      exact congrArg (·.1.isNone) (tuning_perform_format now f e kind payload)
    | parse raw => rfl
    | setServerSalt salt => exact Option.isNone_map
  | setAuth auth => rfl
  | restore auth seqNo => cases auth <;> rfl

end Step

theorem offset_run (clock : Nat → Instant) (steps : List Step) (f : Framer) (e : Entropy) :
    (run clock steps (f, e)).2.1.msgIds.timeOffset = offsetAfter f.msgIds.timeOffset steps := by
  induction steps generalizing clock f e with
  | nil => rfl
  | cons step steps ih =>
    rw [offsetAfter, getLastD_filterMap_cons, ← offset_perform (clock 0) step f e]
    exact ih _ _ _

/-- There is a key exactly if the last step that did not leave it alone has installed one.  The
salts that were set since then make the two keys different, so only this much is kept. -/
theorem isNone_run (clock : Nat → Instant) (steps : List Step) {f : Framer} {e : Entropy}
    {key : Option Authorization} (h : f.auth.isNone = key.isNone) :
    (run clock steps (f, e)).2.1.auth.isNone = (keyAfter key steps).isNone := by
  induction steps generalizing clock f e key with
  | nil => exact h
  | cons step steps ih =>
    -- a step installs the same key on both sides, or none on either
    rw [keyAfter, getLastD_filterMap_cons]
    refine ih _ ((isNone_perform (clock 0) step f e).trans ?_)
    cases step.key? with
    | none => exact h
    | some key => rfl

/-! ## 3. Faults of a message -/

section Format

variable {f : Framer} {e : Entropy} {now : Instant} {kind : MsgKind} {payload : Bytes}

/-- Outside the calendar there is no message of any kind. -/
theorem run_format_unreached (h : ¬ now.Reaches f.msgIds.timeOffset.toInt) :
    format now kind payload (f, e) = (.error (.fault .instantOutOfRange), f, e) := by
  have hnext : f.msgIds.next now = .error .instantOutOfRange := by
    rw [MsgIdGenerator.next, Instant.shift?_of_not_reaches h]
  rw [format, nextMsgId, run_bind, Act.state_bind, hnext]
  rfl

/-- Where nothing is missing, there is a message. -/
theorem exists_format (hclock : now.Reaches f.msgIds.timeOffset.toInt)
    (hkey : kind = .keyExchange ∨ f.auth ≠ none) (hshort : payload.length < 2 ^ 32) :
    ∃ msgId raw s, format now kind payload (f, e) = (.ok (msgId, raw), s) := by
  have ht := Instant.shift?_of_reaches hclock
  by_cases hkind : kind = .keyExchange
  · subst hkind
    exact ⟨_, _, _, (run_format_plain ht).trans (if_pos hshort)⟩
  · obtain ⟨auth, hauth⟩ := Option.ne_none_iff_exists'.mp (hkey.resolve_left hkind)
    obtain ⟨raw, e', pad, hrun, -⟩ := exists_format_keyed (e := e) ht hkind hauth hshort
    exact ⟨_, raw, _, hrun⟩

/-- **When `format` ends in a fault.** -/
theorem fault_of_format_iff (hshort : payload.length < 2 ^ 32) (fault : Fault) :
    (∃ s, format now kind payload (f, e) = (.error (.fault fault), s)) ↔
      (fault = .instantOutOfRange ∧ ¬ now.Reaches f.msgIds.timeOffset.toInt) ∨
      (fault = .keyMissing kind ∧ now.Reaches f.msgIds.timeOffset.toInt ∧
        kind ≠ .keyExchange ∧ f.auth = none) := by
  by_cases hclock : now.Reaches f.msgIds.timeOffset.toInt
  · by_cases hkey : kind ≠ .keyExchange ∧ f.auth = none
    · rw [run_format_unkeyed (Instant.shift?_of_reaches hclock) hkey.1 hkey.2]
      constructor
      · rintro ⟨s, ⟨⟩⟩
        exact Or.inr ⟨rfl, hclock, hkey⟩
      · rintro (⟨-, h⟩ | ⟨rfl, -⟩)
        · exact absurd hclock h
        · exact ⟨_, rfl⟩
    · have hnothing : kind = .keyExchange ∨ f.auth ≠ none :=
        (Decidable.em _).imp_right fun hkind hauth => hkey ⟨hkind, hauth⟩
      obtain ⟨msgId, raw, s, hrun⟩ := exists_format (e := e) hclock hnothing hshort
      rw [hrun]
      constructor
      · rintro ⟨s, ⟨⟩⟩
      · rintro (⟨-, h⟩ | ⟨-, -, h⟩)
        · exact absurd hclock h
        · exact absurd h hkey
  · rw [run_format_unreached hclock]
    constructor
    · rintro ⟨s, ⟨⟩⟩
      exact Or.inl ⟨rfl, hclock⟩
    · rintro (⟨rfl, -⟩ | ⟨-, h, -⟩)
      · exact ⟨_, rfl⟩
      · exact absurd h hclock

end Format

/-! ## 4. What comes from the other side -/

/-- `parse`, without a result where a part is not inside the string it is taken from. -/
def parseWithin (f : Framer) (raw : Bytes) : Option (Except Error Msg) :=
  if raw.length < 8 then some (.error (.decode (.unexpectedEof 8 raw.length)))
  else
    (Envelope.part? raw 0 8).bind fun front =>
      let keyId := UInt64.ofNat (Bytes.ofLE front)
      if keyId = 0 then
        some ((PlainEnvelope.unwrap raw).map fun (msgId, payload) => ⟨.keyExchange, msgId, payload⟩)
      else
        match f.auth with
        | none => some (.error (.unknownAuthKeyId keyId))
        | some auth =>
          (Envelope.decryptWithin auth.key .serverToClient raw).map fun result =>
            result.bind fun env =>
              if env.sessionId ≠ auth.sessionId then .error .sessionMismatch
              else .ok ⟨.ofSeqNo env.seqNo, env.msgId, env.payload⟩

/-- **No part is taken from outside a string**, whatever arrives. -/
theorem parseWithin_eq (f : Framer) (raw : Bytes) : f.parseWithin raw = some (f.parse raw) := by
  by_cases hshort : raw.length < 8
  · rw [parseWithin, if_pos hshort, parse, Envelope.envelopeKeyId?_of_lt hshort]
    rfl
  · obtain ⟨front, rest, hfront, rfl⟩ : ∃ front rest : Bytes, front.length = 8 ∧
        raw = front ++ rest :=
      ⟨raw.take 8, raw.drop 8, List.length_take_of_le (Nat.not_lt.mp hshort),
        (List.take_append_drop 8 raw).symm⟩
    have hpart : Envelope.part? (front ++ rest) 0 8 = some front :=
      Envelope.part?_append [] front rest rfl ((Nat.zero_add _).trans hfront)
    rw [parseWithin, if_neg hshort, hpart, parse,
      Envelope.envelopeKeyId?_append hfront]
    simp only [Option.bind_some, Envelope.decryptWithin_eq, Option.map_some]
    by_cases hzero : UInt64.ofNat (Bytes.ofLE front) = 0
    · rw [if_pos hzero, if_pos hzero]
      cases PlainEnvelope.unwrap (front ++ rest) <;> rfl
    · rw [if_neg hzero, if_neg hzero]
      cases f.auth with
      | none => rfl
      | some auth =>
        cases Envelope.decrypt auth.key .serverToClient (front ++ rest) with
        | error error => rfl
        | ok env => rfl

/-! ## 5. After any steps -/

/-- **When a message ends in a fault, after any use of a framer.**  Take any framer, also one with a
key, and do anything with it: format and parse, set salts, install keys and take them away, whatever
their offsets are.  Then take a message that is not too long.

* It ends in a fault exactly if it needs a key and there is none, or the offset that was installed
  last takes the clock out of the calendar.
* If it does not, it is put into its envelope.
* No string that is parsed has a part taken from outside of it. -/
theorem faults_iff (f₀ : Framer) (clock : Nat → Instant) (steps : List Step) (e₀ e : Entropy)
    (now : Instant) (kind : MsgKind) {payload : Bytes} (hshort : payload.length < 2 ^ 32) :
    let f := (run clock steps (f₀, e₀)).2.1
    let faults := ∃ fault s, format now kind payload (f, e) = (.error (.fault fault), s)
    (faults ↔ (kind ≠ .keyExchange ∧ keyAfter f₀.auth steps = none) ∨
      ¬ now.Reaches (offsetAfter f₀.msgIds.timeOffset steps).toInt) ∧
    (faults ∨ ∃ msgId raw s, format now kind payload (f, e) = (.ok (msgId, raw), s)) ∧
    ∀ raw, f.parseWithin raw = some (f.parse raw) := by
  intro f faults
  have hkey : f.auth = none ↔ keyAfter f₀.auth steps = none := by
    have hnone : f.auth.isNone = _ := isNone_run clock steps rfl
    rw [← Option.isNone_iff_eq_none, ← Option.isNone_iff_eq_none, hnone]
  have hoffset : f.msgIds.timeOffset = _ := offset_run clock steps f₀ e₀
  have hfaults : faults ↔ (kind ≠ .keyExchange ∧ keyAfter f₀.auth steps = none) ∨
      ¬ now.Reaches (offsetAfter f₀.msgIds.timeOffset steps).toInt := by
    rw [← hkey, ← hoffset]
    constructor
    · rintro ⟨fault, h⟩
      rcases (fault_of_format_iff hshort fault).mp h with ⟨-, hclock⟩ | ⟨-, -, hmissing⟩
      · exact Or.inr hclock
      · exact Or.inl hmissing
    · intro h
      by_cases hclock : now.Reaches f.msgIds.timeOffset.toInt
      · exact ⟨_, (fault_of_format_iff hshort _).mpr
          (Or.inr ⟨rfl, hclock, h.resolve_right (not_not.mpr hclock)⟩)⟩
      · exact ⟨_, (fault_of_format_iff hshort _).mpr (Or.inl ⟨rfl, hclock⟩)⟩
  refine ⟨hfaults, or_iff_not_imp_left.mpr fun h => ?_, parseWithin_eq f⟩
  rw [hfaults, ← hkey, ← hoffset, not_or, not_not] at h
  exact exists_format h.2 ((Decidable.em _).imp_right fun hkind hauth => h.1 ⟨hkind, hauth⟩) hshort

/-- A key whose offset takes the clock out of the calendar. -/
def remoteKey : Authorization := ⟨⟨.zero 256⟩, 7, 99, 9000000000000⟩

/-- A key whose offset leaves the clock as it is. -/
def localKey : Authorization := { remoteKey with timeOffset := 0 }

/-- The offset of a key that has been taken away still counts; that of the next key replaces it. -/
theorem faults_of_removed_key :
    (∃ fault s, format ⟨1590000000, 0⟩ .keyExchange [1, 2, 3, 4]
      ((run (fun _ => ⟨1590000000, 0⟩) [.setAuth remoteKey, .restore none 0]
        ({}, .starting [])).2.1, .starting []) = (.error (.fault fault), s)) ∧
    ∃ msgId raw s, format ⟨1590000000, 0⟩ .content [1, 2, 3, 4]
      ((run (fun _ => ⟨1590000000, 0⟩) [.setAuth remoteKey, .setAuth localKey]
        ({}, .starting [])).2.1, .starting []) = (.ok (msgId, raw), s) := by
  have hshort : [(1 : UInt8), 2, 3, 4].length < 2 ^ 32 := by decide
  constructor
  · exact (faults_iff {} _ [.setAuth remoteKey, .restore none 0] _ _ _ .keyExchange hshort).1.mpr
      (Or.inr (by decide))
  · obtain ⟨hfaults, htotal, -⟩ := faults_iff {} (fun _ => ⟨1590000000, 0⟩)
      [.setAuth remoteKey, .setAuth localKey] (.starting [])
      (.starting []) ⟨1590000000, 0⟩ .content hshort
    refine htotal.resolve_left fun h => ?_
    rcases hfaults.mp h with ⟨-, hkey⟩ | hclock
    · cases hkey
    · exact hclock (by decide)

/-- It is not true that a message ends in a fault exactly if it needs a key and there is none: a
message of the key exchange needs none, and here there even is one. -/
theorem fault_with_key :
    ¬ ((∃ fault s, format ⟨1590000000, 0⟩ .keyExchange [1, 2, 3, 4]
        (withAuth remoteKey 0, .starting []) = (.error (.fault fault), s)) ↔
      MsgKind.keyExchange ≠ .keyExchange ∧ (withAuth remoteKey 0).auth = none) := by
  intro h
  have hclock : ¬ Instant.Reaches ⟨1590000000, 0⟩
      (withAuth remoteKey 0).msgIds.timeOffset.toInt := by
    decide
  exact (h.mp ⟨_, _, run_format_unreached hclock⟩).1 rfl

end Framer

end Mtproto
