import Mathlib.Data.List.Basic
import StackProfiler.Timer.Handlers

/-!
# Handlers and withdrawn buffers

A handler that has seen the buffer of a session is counted until it is done with it, and a session
ends only when no handler is counted. So in every order of their steps a handler that may still
capture for a session finds that session armed or waiting, and nothing is captured into the buffer
of a session that has ended until a later session brings the buffer back.

- **one step**: `SignalStep`, what an event does, and `Sound.step`, what it preserves;
- **any run**: `Sound.run`, and `buffers_run`, which sessions there are after it;
- **main statement**: `handlers_done_before_end`.
-/

namespace StackProfiler.Timer

/-! ## Section 1: What an event does -/

/-- What an event requires, and the state that it leads to. -/
inductive SignalStep (s : SignalState) : SignalEvent → SignalState → Prop where
  | signal :
      SignalStep s .signal { s with handlers := s.handlers ++ [.begun] }
  | countIn {i : Nat} (h : s.handlers[i]? = some .begun) :
      SignalStep s (.countIn i) { s.setHandler i .counted with inFlight := s.inFlight + 1 }
  | look {i : Nat} (h : s.handlers[i]? = some .counted) :
      SignalStep s (.look i) (s.setHandler i (.looked s.active))
  | capture {i k : Nat} (h : s.handlers[i]? = some (.looked (some k))) :
      SignalStep s (.capture i) (s.setHandler i (.captured k))
  | leaveEmpty {i : Nat} (h : s.handlers[i]? = some (.looked none)) :
      SignalStep s (.countOut i) { s.setHandler i .left with inFlight := s.inFlight - 1 }
  | leave {i k : Nat} (h : s.handlers[i]? = some (.captured k)) :
      SignalStep s (.countOut i) { s.setHandler i .left with inFlight := s.inFlight - 1 }
  | start {buffer : Nat} (h : s.active = none) :
      SignalStep s (.start buffer)
        { s with active := some s.sessions.length, sessions := s.sessions ++ [{ buffer }] }
  | withdraw {k : Nat} (h : s.phaseOf? k = some .armed) :
      SignalStep s (.withdraw k) { s.setSession k .withdrawn with active := none }
  | finish {k : Nat} (h : s.phaseOf? k = some .withdrawn) (hnone : s.inFlight = 0) :
      SignalStep s (.finish k) (s.setSession k .ended)

/-- Only what a guard allows can happen. -/
theorem signalStep_of_after? {s s' : SignalState} {event : SignalEvent}
    (h : s.after? event = some s') : SignalStep s event s' := by
  cases event with
  | signal =>
    cases h
    exact .signal
  | countIn i =>
    rw [SignalState.after?] at h
    split at h
    case h_1 hbegun =>
      cases h
      exact .countIn hbegun
    case h_2 => contradiction
  | look i =>
    rw [SignalState.after?] at h
    split at h
    case h_1 hcounted =>
      cases h
      exact .look hcounted
    case h_2 => contradiction
  | capture i =>
    rw [SignalState.after?] at h
    split at h
    case h_1 k hseen =>
      cases h
      exact .capture hseen
    case h_2 => contradiction
  | countOut i =>
    rw [SignalState.after?] at h
    split at h
    case h_1 hseen =>
      cases h
      exact .leaveEmpty hseen
    case h_2 k hcaptured =>
      cases h
      exact .leave hcaptured
    case h_3 => contradiction
  | start buffer =>
    rw [SignalState.after?] at h
    split at h
    case h_1 => contradiction
    case h_2 hfree =>
      cases h
      exact .start hfree
  | withdraw k =>
    rw [SignalState.after?] at h
    split at h
    case h_1 harmed =>
      cases h
      exact .withdraw harmed
    case h_2 => contradiction
  | finish k =>
    rw [SignalState.after?] at h
    split at h
    case h_1 hwaiting =>
      -- a session that waits goes on only if no handler is counted
      split at h
      case isTrue hnone =>
        cases h
        exact .finish hwaiting hnone
      case isFalse => contradiction
    case h_2 => contradiction

namespace HandlerPhase

/-- Whether a handler has counted itself in and not out again. -/
def isCounted : HandlerPhase → Bool
  | begun => false
  | counted => true
  | looked _ => true
  | captured _ => true
  | left => false

theorem isCounted_of_session? {phase : HandlerPhase} {k : Nat} (h : phase.session? = some k) :
    phase.isCounted = true := by
  cases phase <;> first | rfl | contradiction

end HandlerPhase

namespace SignalState

/-! ## Section 2: The invariant -/

/-- A session that started after every session that has ended. -/
def IsOpen (s : SignalState) (k : Nat) : Prop :=
  k < s.sessions.length ∧ ∀ j, s.phaseOf? j = some .ended → j < k

/-- What holds in every order of events. -/
structure Sound (s : SignalState) : Prop where
  inFlight_eq : s.inFlight = s.handlers.countP (·.isCounted)
  active_iff : ∀ k, s.active = some k ↔ s.phaseOf? k = some .armed
  active_last : ∀ k, s.active = some k → k + 1 = s.sessions.length
  isOpen_of_mem : ∀ phase ∈ s.handlers, ∀ k, phase.session? = some k → s.IsOpen k

theorem phaseOf?_setSession (s : SignalState) (k j : Nat) (phase : SessionPhase) :
    (s.setSession k phase).phaseOf? j =
      if k = j then (s.phaseOf? j).map fun _ => phase else s.phaseOf? j := by
  simp only [phaseOf?, setSession, List.getElem?_modify]
  cases s.sessions[j]? <;> split <;> simp [*]

theorem lt_of_phaseOf? {s : SignalState} {k : Nat} {phase : SessionPhase}
    (h : s.phaseOf? k = some phase) : k < s.sessions.length := by
  rw [phaseOf?, Option.map_eq_some_iff] at h
  obtain ⟨session, hsession, -⟩ := h
  exact (List.getElem?_eq_some_iff.mp hsession).1

/-- The session that samples go to is open: it is the last one, and it has not ended. -/
theorem Sound.isOpen_active {s : SignalState} (h : s.Sound) {k : Nat} (hk : s.active = some k) :
    s.IsOpen k := by
  have hlast := h.active_last k hk
  refine ⟨by omega, fun j hj => ?_⟩
  have hjlt := lt_of_phaseOf? hj
  have hne : j ≠ k := by
    rintro rfl
    rw [(h.active_iff j).mp hk] at hj
    contradiction
  omega

theorem Sound.inFlight_pos {s : SignalState} (h : s.Sound) {phase : HandlerPhase}
    (hmem : phase ∈ s.handlers) (hcounted : phase.isCounted = true) : 0 < s.inFlight := by
  rw [h.inFlight_eq]
  exact List.countP_pos_iff.mpr ⟨phase, hmem, hcounted⟩

/-- A handler may reach a phase in which it is for an open session, if it is counted rightly. -/
theorem Sound.setHandler {s : SignalState} (h : s.Sound) {i count : Nat}
    {phase next : HandlerPhase} (hi : s.handlers[i]? = some phase)
    (hopen : ∀ k, next.session? = some k → s.IsOpen k)
    (hcount : count + phase.isCounted.toNat = s.inFlight + next.isCounted.toNat) :
    Sound { s.setHandler i next with inFlight := count } := by
  obtain ⟨hlt, hget⟩ := List.getElem?_eq_some_iff.mp hi
  refine ⟨?_, h.active_iff, h.active_last, ?_⟩
  · have hle : phase.isCounted.toNat ≤ s.inFlight := by
      cases hcounted : phase.isCounted with
      | false => exact Nat.zero_le _
      | true => exact h.inFlight_pos (List.mem_of_getElem? hi) hcounted
    show count = (s.handlers.set i next).countP (·.isCounted)
    rw [List.countP_set hlt, hget, ← h.inFlight_eq]
    cases hnext : next.isCounted <;> cases hold : phase.isCounted <;> simp_all; omega
  · intro p hp k hk
    rcases List.mem_or_eq_of_mem_set hp with hp | rfl
    · exact h.isOpen_of_mem p hp k hk
    · exact hopen k hk

theorem Sound.empty : Sound {} := by
  constructor <;> simp [phaseOf?]

/-- A session starts and is the active one. -/
def started (s : SignalState) (buffer : Nat) : SignalState :=
  { s with active := some s.sessions.length, sessions := s.sessions ++ [{ buffer }] }

theorem phaseOf?_started (s : SignalState) (buffer j : Nat) :
    (s.started buffer).phaseOf? j =
      if j = s.sessions.length then some .armed else s.phaseOf? j := by
  simp only [phaseOf?, started, List.getElem?_append, List.getElem?_singleton]
  split <;> split <;> simp_all <;> omega

theorem Sound.started {s : SignalState} (h : s.Sound) (hfree : s.active = none) (buffer : Nat) :
    (s.started buffer).Sound := by
  refine ⟨h.inFlight_eq, ?_, ?_, ?_⟩
  · intro k
    have hnone : s.phaseOf? k ≠ some .armed := by
      rw [ne_eq, ← h.active_iff, hfree]
      exact nofun
    rw [phaseOf?_started]
    show some s.sessions.length = some k ↔ _
    by_cases hk : k = s.sessions.length
    · simp [hk]
    · simp [hk, hnone, Ne.symm hk]
  · intro k hk
    cases hk
    simp [SignalState.started]
  · intro phase hmem k hk
    obtain ⟨hlt, hended⟩ := h.isOpen_of_mem phase hmem k hk
    refine ⟨?_, fun j hj => ?_⟩
    · simp only [SignalState.started, List.length_append]
      omega
    · rw [phaseOf?_started] at hj
      split at hj
      · contradiction
      · exact hended j hj

theorem Sound.withdraw {s : SignalState} (h : s.Sound) {k : Nat}
    (harmed : s.phaseOf? k = some .armed) :
    Sound { s.setSession k .withdrawn with active := none } := by
  have hphase : ∀ j, phaseOf? { s.setSession k .withdrawn with active := none } j =
      if k = j then (s.phaseOf? j).map fun _ => .withdrawn else s.phaseOf? j :=
    fun j => phaseOf?_setSession s k j .withdrawn
  refine ⟨h.inFlight_eq, fun j => ?_, fun j hj => ?_, fun phase hmem j hj => ?_⟩
  · rw [hphase]
    -- only the session that withdraws was armed
    have hothers : k ≠ j → s.phaseOf? j ≠ some .armed := by
      intro hne hj
      have hactive := (h.active_iff k).mpr harmed
      rw [(h.active_iff j).mpr hj] at hactive
      exact hne (Option.some.inj hactive).symm
    by_cases hkj : k = j
    · simp [hkj]
    · simp [hkj, hothers hkj]
  · contradiction
  · obtain ⟨hlt, hended⟩ := h.isOpen_of_mem phase hmem j hj
    refine ⟨by simpa [setSession] using hlt, fun i hi => hended i ?_⟩
    rw [hphase] at hi
    split at hi
    · simp at hi
    · exact hi

theorem Sound.finish {s : SignalState} (h : s.Sound) {k : Nat}
    (hwaiting : s.phaseOf? k = some .withdrawn) (hnone : s.inFlight = 0) :
    (s.setSession k .ended).Sound := by
  refine ⟨h.inFlight_eq, fun j => ?_, fun j hj => ?_, fun phase hmem j hj => ?_⟩
  · rw [phaseOf?_setSession]
    show s.active = some j ↔ _
    rw [h.active_iff]
    split
    · subst k
      simp [hwaiting]
    · rfl
  · simpa [setSession] using h.active_last j hj
  · -- no handler is counted, so none has seen a buffer
    have hpos := h.inFlight_pos hmem (HandlerPhase.isCounted_of_session? hj)
    omega

/-- **One event** keeps the invariant. -/
theorem Sound.step {s s' : SignalState} {event : SignalEvent} (h : s.Sound)
    (hstep : SignalStep s event s') : s'.Sound := by
  cases hstep with
  | signal =>
    refine ⟨?_, h.active_iff, h.active_last, ?_⟩
    · simp [h.inFlight_eq, HandlerPhase.isCounted]
    · intro phase hphase k hk
      rcases List.mem_append.mp hphase with hphase | hphase
      · exact h.isOpen_of_mem phase hphase k hk
      · cases List.mem_singleton.mp hphase
        contradiction
  | countIn hbegun => exact h.setHandler hbegun (fun _ hk => nomatch hk) rfl
  | look hcounted =>
    -- what the handler sees is the active session
    exact h.setHandler hcounted (fun k hk => h.isOpen_active hk) rfl
  | capture hseen =>
    -- the handler goes on for the session that it has seen
    refine h.setHandler hseen (fun j hj => ?_) rfl
    cases hj
    exact h.isOpen_of_mem _ (List.mem_of_getElem? hseen) _ rfl
  | leaveEmpty hseen =>
    have hpos := h.inFlight_pos (List.mem_of_getElem? hseen) rfl
    exact h.setHandler hseen (fun _ hk => nomatch hk) (Nat.sub_add_cancel hpos)
  | leave hcaptured =>
    have hpos := h.inFlight_pos (List.mem_of_getElem? hcaptured) rfl
    exact h.setHandler hcaptured (fun _ hk => nomatch hk) (Nat.sub_add_cancel hpos)
  | start hfree => exact h.started hfree _
  | withdraw harmed => exact h.withdraw harmed
  | finish hwaiting hnone => exact h.finish hwaiting hnone

theorem afterAll?_cons (s : SignalState) (event : SignalEvent) (events : List SignalEvent) :
    s.afterAll? (event :: events) = (s.after? event).bind fun s => s.afterAll? events := by
  simp only [afterAll?, List.foldlM_cons]
  rfl

theorem afterAll?_append (s : SignalState) (front back : List SignalEvent) :
    s.afterAll? (front ++ back) = (s.afterAll? front).bind fun s => s.afterAll? back := by
  simp only [afterAll?, List.foldlM_append]
  rfl

/-- **Every run** keeps the invariant. -/
theorem Sound.run {s s' : SignalState} {events : List SignalEvent} (h : s.Sound)
    (hrun : s.afterAll? events = some s') : s'.Sound := by
  induction events generalizing s with
  | nil =>
    cases hrun
    exact h
  | cons event events ih =>
    rw [afterAll?_cons, Option.bind_eq_some_iff] at hrun
    obtain ⟨s₁, hstep, hrest⟩ := hrun
    exact ih (h.step (signalStep_of_after? hstep)) hrest

/-! ## Section 3: Sessions along a run -/

/-- The buffer that a handler captures into next: that of the session it has seen. -/
def captureBuffer? (s : SignalState) (i : Nat) : Option Nat :=
  match s.handlers[i]? with
  | some (.looked (some k)) => (s.sessions[k]?).map (·.buffer)
  | _ => none

/-- The buffers that several events start sessions for, in order. -/
def startedBuffers (events : List SignalEvent) : List Nat :=
  events.filterMap fun
    | .start buffer => some buffer
    | _ => none

theorem mem_startedBuffers {events : List SignalEvent} {buffer : Nat}
    (h : buffer ∈ startedBuffers events) : .start buffer ∈ events := by
  obtain ⟨event, hmem, hstart⟩ := List.mem_filterMap.mp h
  cases event <;> simp_all

theorem buffers_setSession (s : SignalState) (k : Nat) (phase : SessionPhase) :
    (s.setSession k phase).sessions.map (·.buffer) = s.sessions.map (·.buffer) := by
  apply List.ext_getElem?
  intro j
  simp only [setSession, List.getElem?_map, List.getElem?_modify]
  cases s.sessions[j]? <;> split <;> simp

theorem buffers_step {s s' : SignalState} {event : SignalEvent} (h : SignalStep s event s') :
    s'.sessions.map (·.buffer) = s.sessions.map (·.buffer) ++ startedBuffers [event] := by
  cases h with
  | start hfree => simp [startedBuffers]
  | withdraw harmed => exact (buffers_setSession s _ _).trans (List.append_nil _).symm
  | finish hwaiting hnone => exact (buffers_setSession s _ _).trans (List.append_nil _).symm
  | _ => exact (List.append_nil _).symm

/-- The sessions after a run are those before it and the ones that it starts. -/
theorem buffers_run {s s' : SignalState} {events : List SignalEvent}
    (h : s.afterAll? events = some s') :
    s'.sessions.map (·.buffer) = s.sessions.map (·.buffer) ++ startedBuffers events := by
  induction events generalizing s with
  | nil =>
    cases h
    exact (List.append_nil _).symm
  | cons event events ih =>
    rw [afterAll?_cons, Option.bind_eq_some_iff] at h
    obtain ⟨s₁, hstep, hrest⟩ := h
    have hcons : startedBuffers (event :: events) =
        startedBuffers [event] ++ startedBuffers events := by
      rw [startedBuffers, ← List.singleton_append, List.filterMap_append]
      rfl
    rw [ih hrest, buffers_step (signalStep_of_after? hstep), hcons, List.append_assoc]

theorem ended_step {s s' : SignalState} {event : SignalEvent} {k : Nat}
    (hended : s.phaseOf? k = some .ended) (h : SignalStep s event s') :
    s'.phaseOf? k = some .ended := by
  cases h with
  | @start buffer hfree =>
    show (s.started buffer).phaseOf? k = _
    have hne : k ≠ s.sessions.length := Nat.ne_of_lt (lt_of_phaseOf? hended)
    rw [phaseOf?_started, if_neg hne, hended]
  | @withdraw j harmed =>
    have hne : j ≠ k := by
      rintro rfl
      rw [hended] at harmed
      contradiction
    show (s.setSession j .withdrawn).phaseOf? k = _
    rw [phaseOf?_setSession, if_neg hne, hended]
  | @finish j hwaiting hnone =>
    rw [phaseOf?_setSession]
    split <;> simp [hended]
  | _ => exact hended

/-- A session that has ended stays so. -/
theorem ended_run {s s' : SignalState} {events : List SignalEvent} {k : Nat}
    (hended : s.phaseOf? k = some .ended) (h : s.afterAll? events = some s') :
    s'.phaseOf? k = some .ended := by
  induction events generalizing s with
  | nil =>
    cases h
    exact hended
  | cons event events ih =>
    rw [afterAll?_cons, Option.bind_eq_some_iff] at h
    obtain ⟨s₁, hstep, hrest⟩ := h
    exact ih (ended_step hended (signalStep_of_after? hstep)) hrest

/-- A handler that may still capture for a session finds it armed or waiting. -/
theorem Sound.phaseOf?_of_session? {s : SignalState} (h : s.Sound) {i k : Nat}
    {phase : HandlerPhase} (hi : s.handlers[i]? = some phase) (hk : phase.session? = some k) :
    s.phaseOf? k = some .armed ∨ s.phaseOf? k = some .withdrawn := by
  obtain ⟨hlt, hended⟩ := h.isOpen_of_mem phase (List.mem_of_getElem? hi) k hk
  have hsome : s.phaseOf? k = some (s.sessions[k].phase) := by
    rw [phaseOf?, List.getElem?_eq_getElem hlt]
    rfl
  rw [hsome]
  cases hphase : s.sessions[k].phase with
  | armed => exact .inl rfl
  | withdrawn => exact .inr rfl
  | ended => exact absurd (hended k (hsome.trans (congrArg some hphase))) (Nat.lt_irrefl k)

/-- What a handler captures into is the buffer of an open session. -/
theorem Sound.exists_of_captureBuffer? {s : SignalState} (h : s.Sound) {i buffer : Nat}
    (hi : s.captureBuffer? i = some buffer) :
    ∃ k, s.IsOpen k ∧ (s.sessions.map (·.buffer))[k]? = some buffer := by
  unfold captureBuffer? at hi
  split at hi
  case h_1 k hseen =>
    have hopen := h.isOpen_of_mem _ (List.mem_of_getElem? hseen) k rfl
    exact ⟨k, hopen, by rw [List.getElem?_map, hi]⟩
  case h_2 => contradiction

/-! ## Section 4: No capture after the end -/

/--
**Handlers are done before a session ends.** In every state that can come about, a session whose
buffer a handler has seen has not ended as long as that handler is counted. And once a session has
withdrawn its buffer and ended, nothing is captured into any buffer, its own included, unless a
session was started for that buffer after the withdrawal.
-/
theorem handlers_done_before_end :
    (∀ s : SignalState, s.Reachable → ∀ (i k : Nat) (phase : HandlerPhase),
      s.handlers[i]? = some phase → phase.session? = some k →
        s.phaseOf? k = some .armed ∨ s.phaseOf? k = some .withdrawn) ∧
    ∀ (before waiting after : List SignalEvent) (k : Nat) (s : SignalState),
      afterAll? {} (before ++ .withdraw k :: waiting ++ .finish k :: after) = some s →
      ∀ i buffer : Nat, s.captureBuffer? i = some buffer → .start buffer ∈ waiting ++ after := by
  constructor
  · intro s hs i k phase hi hk
    obtain ⟨events, hrun⟩ := hs
    exact (Sound.empty.run hrun).phaseOf?_of_session? hi hk
  · intro before waiting after k s hrun i buffer hcapture
    have hsound := Sound.empty.run hrun
    have hbuffers := buffers_run hrun
    -- the run is cut where the session withdraws its buffer and where it ends
    simp only [List.append_assoc, afterAll?_append, afterAll?_cons, List.cons_append,
      Option.bind_eq_some_iff] at hrun
    obtain ⟨s₁, hrun₁, s₂, hwithdraw, s₃, hrun₃, s₄, hfinish, hrun₄⟩ := hrun
    have hlast : k + 1 = (startedBuffers before).length := by
      have hsound₁ := Sound.empty.run hrun₁
      have harmed : s₁.phaseOf? k = some .armed := by
        cases signalStep_of_after? hwithdraw
        assumption
      have hbuffers₁ := congrArg List.length (buffers_run hrun₁)
      rw [hsound₁.active_last k ((hsound₁.active_iff k).mpr harmed)]
      simpa using hbuffers₁
    have hended : s.phaseOf? k = some .ended := by
      refine ended_run ?_ hrun₄
      cases signalStep_of_after? hfinish with
      | finish hwaiting hnone => rw [phaseOf?_setSession, if_pos rfl, hwaiting, Option.map_some]
    -- what is captured for was started after every session that has ended
    obtain ⟨j, ⟨-, hlater⟩, hj⟩ := hsound.exists_of_captureBuffer? hcapture
    have hkj : k < j := hlater k hended
    have hcut : startedBuffers (before ++ .withdraw k :: waiting ++ .finish k :: after) =
        startedBuffers before ++ startedBuffers (waiting ++ after) := by
      simp [startedBuffers]
    rw [hbuffers, hcut, List.map_nil, List.nil_append,
      List.getElem?_append_right (by omega)] at hj
    exact mem_startedBuffers (List.mem_of_getElem? hj)

/-- A session for buffer 7, whose buffer one handler has seen; another one has only begun. -/
private def seenBefore : List SignalEvent :=
  [.start 7, .signal, .countIn 0, .signal, .look 0]

/-- While that session waits, a second one starts for the same buffer, and the other handler, which
is late, captures for it. -/
private def overlapping : List SignalEvent :=
  [.countIn 1, .start 7, .capture 0, .countOut 0, .look 1, .capture 1, .countOut 1]

private def seenAfter : List SignalEvent :=
  [.signal, .countIn 2, .look 2]

/-- While the first session waits, the handler that has seen its buffer is still in it; after its end
a capture into the same buffer is one for the second session. -/
theorem handlers_done_before_end_overlapping :
    (∃ s, afterAll? {} (seenBefore ++ [.withdraw 0]) = some s ∧
      s.handlers[0]? = some (.looked (some 0)) ∧
      (s.phaseOf? 0 = some .armed ∨ s.phaseOf? 0 = some .withdrawn)) ∧
    ∃ s, afterAll? {} (seenBefore ++ .withdraw 0 :: overlapping ++ .finish 0 :: seenAfter) = some s ∧
      s.captureBuffer? 2 = some 7 ∧ SignalEvent.start 7 ∈ overlapping ++ seenAfter := by
  constructor
  · refine ⟨_, rfl, rfl, ?_⟩
    exact handlers_done_before_end.1 _ ⟨seenBefore ++ [.withdraw 0], rfl⟩ 0 0 _ rfl rfl
  · refine ⟨_, rfl, rfl, ?_⟩
    exact handlers_done_before_end.2 seenBefore overlapping seenAfter 0 _ rfl 2 7 rfl

end SignalState

end StackProfiler.Timer
