import Mathlib.Tactic.Common
import Mtproto.Proofs.Framer

/-!
# What comes of the calls of a framer

Any sequence of things may be done with a `Framer` (`Step`): messages are formatted and parsed, the
salt is replaced, a key is installed, a state is taken up.  `run` takes such steps, each at its own
reading of the clock.  A step may halt, and the next one goes on from what it has left.

What comes of a step depends on little, its `Standing`: the key and the counter.  `Comes` says what
it is, up to the message identifier and the padding.

* `comes_perform`: for each step there is something, as long as the clock can be shifted to the
  server's.
* `comes_run`: so the whole of a run follows from the standing at its start.
* `run_numbers`: for a framer with a key that is only used, the standing before each message has a
  closed form.  The salt is the last one that has been set, and the counter has gone up by two for
  each content message; the parity of a sequence number tells content from the rest, also where the
  counter wraps around.
-/

namespace Mtproto.Framer

/-! ## 1. Runs -/

/-- A use of a framer. -/
inductive Call where
  | format (kind : MsgKind) (payload : Bytes)
  | parse (raw : Bytes)
  | setServerSalt (salt : UInt64)

/-- What is done with a framer. -/
inductive Step where
  | call (c : Call)
  | setAuth (auth : Authorization)
  | restore (auth : Option Authorization) (seqNo : UInt32)

/-- What comes of a step. -/
inductive Answer where
  | formatted (msgId : UInt64) (raw : Bytes)
  | parsed (result : Except Error Msg)
  | done

/-- Take a step when our clock shows `now`. -/
def perform (now : Instant) : Step → Act Framer Answer
  | .call (.format kind payload) => do
    let (msgId, raw) ← format now kind payload
    return .formatted msgId raw
  | .call (.parse raw) => do return .parsed ((← Act.state).parse raw)
  | .call (.setServerSalt salt) => do
    Act.update (·.setServerSalt salt)
    return .done
  | .setAuth auth => do
    Act.update (·.setAuth auth)
    return .done
  | .restore auth seqNo => do
    Act.update (·.restore auth seqNo)
    return .done

/-- Take some steps, the `i`-th when our clock shows `clock i`: what comes of each, and what is
left at the end. -/
def run (clock : Nat → Instant) : List Step → Framer × Entropy →
    List (Except Halt Answer) × Framer × Entropy
  | [], s => ([], s)
  | step :: steps, s =>
    let (outcome, s) := perform (clock 0) step s
    let (outcomes, s) := run (fun i => clock (i + 1)) steps s
    (outcome :: outcomes, s)

/-- The offset of the clock after a step. -/
def Step.offset (offset : Int64) : Step → Int64
  | .setAuth auth | .restore (some auth) _ => auth.timeOffset
  | .call _ | .restore none _ => offset

/-- A step that looks at the clock. -/
def Step.isFormat : Step → Bool
  | .call (.format _ _) => true
  | .call (.parse _) | .call (.setServerSalt _) | .setAuth _ | .restore _ _ => false

/-- Whenever some steps look at our clock, it can be shifted to the server's. -/
def Timely (clock : Nat → Instant) (offset : Int64) : List Step → Prop
  | [] => True
  | step :: steps => (step.isFormat → ((clock 0).shift? offset.toInt).isSome) ∧
    Timely (fun i => clock (i + 1)) (step.offset offset) steps

/-! ## 2. What comes of a step -/

/-- What a framer's answers depend on. -/
structure Standing where
  auth : Option Authorization
  seqNo : UInt32

/-- The key and the counter of a framer. -/
def standing (f : Framer) : Standing := ⟨f.auth, f.seqNo⟩

/-- The standing after a step. -/
def Standing.next (s : Standing) : Step → Standing
  | .call (.format kind _) =>
    if kind = .content ∧ s.auth.isSome then { s with seqNo := s.seqNo + 2 } else s
  | .call (.parse _) => s
  | .call (.setServerSalt salt) =>
    { s with auth := s.auth.map fun a => { a with serverSalt := salt } }
  | .setAuth auth => { s with auth := some auth }
  | .restore auth seqNo => ⟨auth, seqNo⟩

/-- What can come of a step. -/
inductive Comes (s : Standing) : Step → Except Halt Answer → Prop where
  /-- Only the key exchange has no need of a key. -/
  | keyMissing {kind : MsgKind} {payload : Bytes} (hkind : kind ≠ .keyExchange)
      (hauth : s.auth = none) :
      Comes s (.call (.format kind payload)) (.error (.fault (.keyMissing kind)))
  | overlong {kind : MsgKind} {payload : Bytes} (hkey : kind ≠ .keyExchange → s.auth ≠ none)
      (hlong : 2 ^ 32 ≤ payload.length) :
      Comes s (.call (.format kind payload))
        (.error (.error (.decode (.overflow payload.length 32))))
  | plain {payload raw : Bytes} {msgId : UInt64} (hlt : payload.length < 2 ^ 32)
      (hraw : PlainEnvelope.unwrap raw = .ok (msgId, payload)) :
      Comes s (.call (.format .keyExchange payload)) (.ok (.formatted msgId raw))
  | encrypted {kind : MsgKind} {payload raw : Bytes} {msgId : UInt64} {auth : Authorization}
      (hkind : kind ≠ .keyExchange) (hauth : s.auth = some auth) (hlt : payload.length < 2 ^ 32)
      (hraw : Envelope.decrypt auth.key .clientToServer raw = .ok
        { salt := auth.serverSalt, sessionId := auth.sessionId, msgId
          seqNo := if kind = .content then s.seqNo + 1 else s.seqNo, payload }) :
      Comes s (.call (.format kind payload)) (.ok (.formatted msgId raw))
  | parsed (raw : Bytes) :
      Comes s (.call (.parse raw)) (.ok (.parsed (({ auth := s.auth } : Framer).parse raw)))
  | setServerSalt (salt : UInt64) : Comes s (.call (.setServerSalt salt)) (.ok .done)
  | setAuth (auth : Authorization) : Comes s (.setAuth auth) (.ok .done)
  | restore (auth : Option Authorization) (seqNo : UInt32) : Comes s (.restore auth seqNo) (.ok .done)

section Step

variable {f : Framer} {now : Instant} {e : Entropy}

/-- What a step leaves behind. -/
structure Leaves (f : Framer) (step : Step) (f' : Framer) : Prop where
  standing : f'.standing = f.standing.next step
  offset : f'.msgIds.timeOffset = step.offset f.msgIds.timeOffset

theorem leaves_numbered {t : Instant} {kind : MsgKind} {payload : Bytes}
    (h : ¬ (kind = .content ∧ f.auth.isSome)) :
    Leaves f (.call (.format kind payload)) (f.numbered t) :=
  ⟨(if_neg h).symm, rfl⟩

theorem leaves_counted {t : Instant} {kind : MsgKind} {payload : Bytes} {auth : Authorization}
    (hauth : f.auth = some auth) : Leaves f (.call (.format kind payload)) (f.counted t kind) := by
  refine ⟨?_, rfl⟩
  cases kind <;> simp [standing, counted, numbered, Standing.next, hauth]

/-- A message comes to something. -/
theorem comes_format (hclock : (now.shift? f.msgIds.timeOffset.toInt).isSome) (kind : MsgKind)
    (payload : Bytes) : ∃ outcome f' e',
      perform now (.call (.format kind payload)) (f, e) = (outcome, f', e') ∧
      Comes f.standing (.call (.format kind payload)) outcome ∧
      Leaves f (.call (.format kind payload)) f' := by
  obtain ⟨t, ht⟩ := Option.isSome_iff_exists.mp hclock
  have hperform : ∀ {r : Except Halt (UInt64 × Bytes)} {s : Framer × Entropy},
      format now kind payload (f, e) = (r, s) →
      perform now (.call (.format kind payload)) (f, e) =
        (r.map fun a => Answer.formatted a.1 a.2, s) := by
    intro r s hrun
    rw [perform, run_bind, hrun]
    cases r <;> rfl
  by_cases hkind : kind = .keyExchange
  · subst hkind
    have hrun : format now .keyExchange payload (f, e) = _ := run_format_plain ht
    split at hrun
    · rename_i hlt
      exact ⟨_, _, _, hperform hrun, .plain hlt (PlainEnvelope.unwrap_text hlt _),
        leaves_numbered (by simp)⟩
    · rename_i hlong
      exact ⟨_, _, _, hperform hrun, .overlong (fun h => absurd rfl h) (Nat.not_lt.mp hlong),
        leaves_numbered (by simp)⟩
  · cases hauth : f.auth with
    | none =>
      exact ⟨_, _, _, hperform (run_format_unkeyed ht hkind hauth), .keyMissing hkind hauth,
        leaves_numbered (by simp [hauth])⟩
    | some auth =>
      rcases Nat.lt_or_ge payload.length (2 ^ 32) with hlt | hlong
      · obtain ⟨raw, e', pad, hrun, hsealed⟩ :=
          exists_format_keyed (e := e) ht hkind hauth hlt
        exact ⟨_, _, _, hperform hrun,
          .encrypted hkind hauth hlt (Envelope.decrypt_of_sealed hsealed), leaves_counted hauth⟩
      · exact ⟨_, _, _, hperform (run_format_overlong ht hkind hauth hlong),
          .overlong (fun _ => by simp [standing, hauth]) hlong, leaves_counted hauth⟩

/-- **A step comes to something, and its standing says to what.** -/
theorem comes_perform {step : Step}
    (hclock : step.isFormat → (now.shift? f.msgIds.timeOffset.toInt).isSome) :
    ∃ outcome f' e', perform now step (f, e) = (outcome, f', e') ∧
      Comes f.standing step outcome ∧ Leaves f step f' := by
  cases step with
  | call c =>
    cases c with
    | format kind payload => exact comes_format (hclock rfl) kind payload
    | parse raw => exact ⟨_, f, e, rfl, .parsed raw, rfl, rfl⟩
    | setServerSalt salt => exact ⟨_, _, e, rfl, .setServerSalt salt, rfl, rfl⟩
  | setAuth auth => exact ⟨_, _, e, rfl, .setAuth auth, rfl, rfl⟩
  | restore auth seqNo =>
    refine ⟨_, _, e, rfl, .restore auth seqNo, ?_, ?_⟩
    · cases auth <;> rfl
    · cases auth <;> rfl

end Step

/-! ## 3. What comes of a run -/

/-- The standing after some steps. -/
def Standing.after (s : Standing) (steps : List Step) : Standing :=
  steps.foldl Standing.next s

/-- What has come of the step at a place in a run. -/
def ComesAt (s : Standing) (outcomes : List (Except Halt Answer)) (before : List Step)
    (step : Step) : Prop :=
  ∃ outcome, outcomes[before.length]? = some outcome ∧ Comes (s.after before) step outcome

/-- **A run keeps key, salt and counter as its steps say.** -/
theorem comes_run {clock : Nat → Instant} {steps : List Step} {f : Framer}
    (hclock : Timely clock f.msgIds.timeOffset steps) (e : Entropy) :
    (run clock steps (f, e)).2.1.standing = f.standing.after steps ∧
      ∀ before step rest, steps = before ++ step :: rest →
        ComesAt f.standing (run clock steps (f, e)).1 before step := by
  -- All that the other steps need to know of the first one is what it leaves: a standing, and an
  -- offset at which they are still timely.
  induction steps generalizing clock f e with
  | nil => exact ⟨rfl, fun before step rest h => by simp at h⟩
  | cons first steps ih =>
    obtain ⟨hnow, hlater⟩ := hclock
    obtain ⟨outcome, f', e', hrun, hcomes, hleaves⟩ := comes_perform (e := e) hnow
    rw [← hleaves.offset] at hlater
    obtain ⟨hend, hothers⟩ := ih hlater e'
    rw [hleaves.standing] at hend hothers
    have hsplit : run clock (first :: steps) (f, e) =
        (outcome :: (run (fun i => clock (i + 1)) steps (f', e')).1,
          (run (fun i => clock (i + 1)) steps (f', e')).2) := by
      rw [run, hrun]
    rw [hsplit]
    refine ⟨hend, ?_⟩
    rintro (_ | ⟨head, before⟩) step rest h
    · cases h
      exact ⟨outcome, rfl, hcomes⟩
    · cases h
      exact hothers before step rest rfl

/-! ## 4. A framer that is only used -/

/-- A content message. -/
def Call.isContent : Call → Bool
  | .format kind _ => kind = .content
  | .parse _ | .setServerSalt _ => false

/-- The salt that a call sets. -/
def Call.salt? : Call → Option UInt64
  | .setServerSalt salt => some salt
  | .format _ _ | .parse _ => none

/-- The last salt that has been set, or the one from the start. -/
def latestSalt (initial : UInt64) (calls : List Call) : UInt64 :=
  (calls.filterMap Call.salt?).getLastD initial

/-- The counter after some calls: two more for each content message. -/
def counter (seqNo : UInt32) (calls : List Call) : UInt32 :=
  UInt32.ofNat (seqNo.toNat + 2 * calls.countP Call.isContent)

/-- The sequence number of a message: one more than the counter for content. -/
def numberOf (seqNo : UInt32) (before : List Call) (kind : MsgKind) : UInt32 :=
  UInt32.ofNat (seqNo.toNat + 2 * before.countP Call.isContent + if kind = .content then 1 else 0)

/-- The last of what the elements of a list yield. -/
theorem getLastD_filterMap_cons {α β : Type} (g : α → Option β) (a : α) (l : List α) (initial : β) :
    ((a :: l).filterMap g).getLastD initial = (l.filterMap g).getLastD ((g a).getD initial) := by
  cases h : g a with
  | none => rw [List.filterMap_cons_none h, Option.getD_none]
  | some b => rw [List.filterMap_cons_some h, List.getLastD_cons, Option.getD_some]

theorem latestSalt_cons (initial : UInt64) (c : Call) (calls : List Call) :
    latestSalt initial (c :: calls) = latestSalt (c.salt?.getD initial) calls :=
  getLastD_filterMap_cons _ _ _ _

theorem counter_cons (seqNo : UInt32) (c : Call) (calls : List Call) :
    counter seqNo (c :: calls) = counter (if c.isContent then seqNo + 2 else seqNo) calls := by
  rw [counter, counter, ← UInt32.toNat_inj, UInt32.toNat_ofNat', UInt32.toNat_ofNat']
  by_cases hc : c.isContent = true
  · rw [List.countP_cons_of_pos hc, if_pos hc, UInt32.toNat_add]
    change _ = ((seqNo.toNat + 2) % 2 ^ 32 + _) % 2 ^ 32
    omega
  · rw [List.countP_cons_of_neg hc, if_neg hc]

theorem next_call (auth : Authorization) (seqNo : UInt32) (c : Call) :
    (⟨some auth, seqNo⟩ : Standing).next (.call c) =
      ⟨some { auth with serverSalt := c.salt?.getD auth.serverSalt },
        if c.isContent then seqNo + 2 else seqNo⟩ := by
  cases c with
  | format kind payload => cases kind <;> rfl
  | parse raw => rfl
  | setServerSalt salt => rfl

/-- **Salt and counter after some steps, in closed form.** -/
theorem after_calls (auth : Authorization) (seqNo : UInt32) (calls : List Call) :
    (⟨some auth, seqNo⟩ : Standing).after (calls.map .call) =
      ⟨some { auth with serverSalt := latestSalt auth.serverSalt calls }, counter seqNo calls⟩ := by
  induction calls generalizing auth seqNo with
  | nil =>
    have hcounter : counter seqNo [] = seqNo := UInt32.ofNat_toNat
    rw [hcounter]
    rfl
  | cons c calls ih =>
    rw [List.map_cons, Standing.after, List.foldl_cons, next_call, latestSalt_cons, counter_cons]
    exact ih _ _

theorem numberOf_eq (seqNo : UInt32) (before : List Call) (kind : MsgKind) :
    numberOf seqNo before kind =
      if kind = .content then counter seqNo before + 1 else counter seqNo before := by
  rw [numberOf, counter]
  split
  · rw [← UInt32.toNat_inj, UInt32.toNat_add, UInt32.toNat_ofNat', UInt32.toNat_ofNat']
    change _ = (_ % 2 ^ 32 + 1) % 2 ^ 32
    omega
  · rfl

/-- A counter that was even at the start makes the numbers of content odd, and no others. -/
theorem ofSeqNo_numberOf {seqNo : UInt32} (heven : seqNo.toNat % 2 = 0) (before : List Call)
    {kind : MsgKind} (hkind : kind ≠ .keyExchange) :
    MsgKind.ofSeqNo (numberOf seqNo before kind) = kind := by
  have hparity : (numberOf seqNo before kind).toNat % 2 = if kind = .content then 1 else 0 := by
    rw [numberOf, UInt32.toNat_ofNat']
    split <;> omega
  have hodd : numberOf seqNo before kind % 2 = 1 ↔ kind = .content := by
    rw [← UInt32.toNat_inj, UInt32.toNat_mod]
    change _ % 2 = 1 ↔ _
    rw [hparity]
    split <;> simp [*]
  rw [MsgKind.ofSeqNo]
  cases kind with
  | content => exact if_pos (hodd.mpr rfl)
  | service => exact if_neg fun h => MsgKind.noConfusion (hodd.mp h)
  | keyExchange => exact absurd rfl hkind

/-- Uses leave the offset of the clock alone. -/
theorem timely_calls {offset : Int64} {clock : Nat → Instant} {calls : List Call}
    (h : ∀ i < calls.length, ((clock i).shift? offset.toInt).isSome) :
    Timely clock offset (calls.map .call) := by
  induction calls generalizing clock with
  | nil => trivial
  | cons c calls ih =>
    refine ⟨fun _ => h 0 (Nat.succ_pos _), ih fun i hi => h (i + 1) ?_⟩
    rw [List.length_cons]
    omega

/-- **How `format` numbers messages.**  Take any framer with a key, and use it in any way, at clock
readings that the offset of the key leaves in the calendar, for messages that are not too long.

* The counter goes up by two for each content message, and by nothing else.
* Every message is written, under the identifier that is returned.  A plain envelope holds its
  payload.  In an encrypted one the server finds the payload, the session, the salt that was set
  last, and a number: the counter, or one more for content.
* If the counter was even, the number tells the kind, also where the counter has gone round. -/
theorem run_numbers (auth : Authorization) (clock : Nat → Instant) {calls : List Call}
    (hclock : ∀ i < calls.length, ((clock i).shift? auth.timeOffset.toInt).isSome)
    (hlength : ∀ kind payload, .format kind payload ∈ calls → payload.length < 2 ^ 32)
    (f : Framer) (seqNo : UInt32) (e : Entropy) :
    ∃ outcomes f' e',
      run clock (calls.map .call) (f.restore (some auth) seqNo, e) = (outcomes, f', e') ∧
      f'.seqNo = UInt32.ofNat (seqNo.toNat + 2 * calls.countP Call.isContent) ∧
      ∀ before kind payload rest, calls = before ++ .format kind payload :: rest →
        ∃ msgId raw, outcomes[before.length]? = some (.ok (.formatted msgId raw)) ∧
          (kind = .keyExchange → PlainEnvelope.unwrap raw = .ok (msgId, payload)) ∧
          (kind ≠ .keyExchange →
            Envelope.decrypt auth.key .clientToServer raw = .ok
              { salt := latestSalt auth.serverSalt before, sessionId := auth.sessionId, msgId
                seqNo := numberOf seqNo before kind, payload } ∧
            (seqNo.toNat % 2 = 0 → MsgKind.ofSeqNo (numberOf seqNo before kind) = kind)) := by
  obtain ⟨hend, hcomes⟩ := comes_run (f := f.restore (some auth) seqNo) (timely_calls hclock) e
  have hstanding : (f.restore (some auth) seqNo).standing = ⟨some auth, seqNo⟩ := rfl
  rw [hstanding] at hend hcomes
  rw [after_calls] at hend
  rcases hrun : run clock (calls.map .call) (f.restore (some auth) seqNo, e) with
    ⟨outcomes, f', e'⟩
  rw [hrun] at hend hcomes
  refine ⟨outcomes, f', e', rfl, congrArg Standing.seqNo hend, ?_⟩
  rintro before kind payload rest rfl
  obtain ⟨outcome, houtcome, hcomes⟩ := hcomes (before.map .call) (.call (.format kind payload))
    (rest.map .call) (by rw [List.map_append, List.map_cons])
  rw [List.length_map] at houtcome
  rw [after_calls] at hcomes
  have hshort := hlength kind payload (List.mem_append_right _ List.mem_cons_self)
  cases hcomes with
  | keyMissing hkind hauth => cases hauth
  | overlong hkey hlong => omega
  | plain hlt hraw => exact ⟨_, _, houtcome, fun _ => hraw, fun h => absurd rfl h⟩
  | encrypted hkind hauth hlt hraw =>
    cases hauth
    rw [← numberOf_eq] at hraw
    exact ⟨_, _, houtcome, fun h => absurd h hkind, fun _ => ⟨hraw, fun heven =>
      ofSeqNo_numberOf heven before hkind⟩⟩

/-- A counter that goes round, and a salt that is replaced. -/
theorem run_numbers_around : ∃ outcomes f' e',
    run (fun _ => ⟨1590000000, 0⟩)
        ([.format .content [], .setServerSalt 5, .format .service [8, 9]].map .call)
        (({} : Framer).restore (some ⟨⟨.zero 256⟩, 1, 2, 0⟩) 4294967294, .starting []) =
      (outcomes, f', e') ∧
    f'.seqNo = 0 ∧
    (∃ msgId raw, outcomes[0]? = some (.ok (.formatted msgId raw)) ∧
      Envelope.decrypt ⟨.zero 256⟩ .clientToServer raw = .ok ⟨1, 2, msgId, 4294967295, []⟩) ∧
    ∃ msgId raw, outcomes[2]? = some (.ok (.formatted msgId raw)) ∧
      Envelope.decrypt ⟨.zero 256⟩ .clientToServer raw = .ok ⟨5, 2, msgId, 0, [8, 9]⟩ := by
  have hlength : ∀ kind payload, .format kind payload ∈
      [Call.format .content [], .setServerSalt 5, .format .service [8, 9]] →
      payload.length < 2 ^ 32 := by
    intro kind payload h
    simp only [List.mem_cons, Call.format.injEq, reduceCtorEq, List.not_mem_nil, or_false,
      false_or] at h
    rcases h with ⟨-, rfl⟩ | ⟨-, rfl⟩ <;> decide
  obtain ⟨outcomes, f', e', hrun, hend, hmessages⟩ :=
    run_numbers ⟨⟨.zero 256⟩, 1, 2, 0⟩ (fun _ => ⟨1590000000, 0⟩) (fun _ _ => by decide) hlength
      {} 4294967294 (.starting [])
  obtain ⟨msgId, raw, hfirst, -, hopen⟩ := hmessages [] .content [] _ rfl
  obtain ⟨msgId', raw', hlast, -, hopen'⟩ :=
    hmessages [.format .content [], .setServerSalt 5] .service [8, 9] [] rfl
  refine ⟨outcomes, f', e', hrun, hend, ⟨msgId, raw, hfirst, ?_⟩, msgId', raw', hlast, ?_⟩
  · exact (hopen MsgKind.noConfusion).1
  · exact (hopen' MsgKind.noConfusion).1

end Mtproto.Framer
