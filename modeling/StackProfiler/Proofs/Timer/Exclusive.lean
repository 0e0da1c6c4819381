import Mathlib.Data.List.Basic
import StackProfiler.Timer.Sampler

/-!
# One sampler at a time

A program starts, stops and drops samplers in any order, and each call of a start may fail on its
own. A start leaves the profiling state of the process either as it found it or armed for the
sampler that it hands out (`TimerSampler.start_cases`), and disarming that sampler brings the former
state back, whether that is done once or twice. So no two samplers are ever armed together, and what
the program does on the profiling signal is the same before a session and after it.

- **one call**: `TimerProgram.Sound.step`, what it preserves;
- **any run**: `TimerProgram.Sound.run`;
- **main statement**: `TimerProgram.sessions_leave_no_trace`.
-/

namespace StackProfiler

/-! ## Section 1: Programs with samplers -/

/-- A call that a program makes. Samplers are numbered in the order of the starts they come from. -/
inductive TimerCall where
  | start (buffer frequencyHz : Nat) (faults : StartFaults)
  | stop (sampler : Nat)
  | drop (sampler : Nat)
deriving DecidableEq, Repr

/-- The profiling state of a process, and the samplers that its program holds. -/
structure TimerProgram where
  state : TimerState
  /-- All samplers that were handed out; none in place of one that has been given up. -/
  samplers : List (Option TimerSampler) := []
deriving DecidableEq, Repr

namespace TimerProgram

/-- The sampler of a number, if the program holds it. -/
def held? (p : TimerProgram) (k : Nat) : Option TimerSampler :=
  p.samplers[k]?.join

/-- The program without a sampler, in the state that giving it up leads to. -/
def giveUp (p : TimerProgram) (k : Nat) (state : TimerState) : TimerProgram :=
  { state, samplers := p.samplers.set k none }

/-- The program after a call, if the call is possible: only a sampler that is held is given up. -/
def after? (p : TimerProgram) : TimerCall → Option TimerProgram
  | .start buffer frequencyHz faults =>
    match TimerSampler.start p.state buffer frequencyHz faults with
    | (.ok s, state) => some { state, samplers := p.samplers ++ [some s] }
    | (.error _, state) => some { p with state }
  | .stop k => (p.held? k).map fun s => p.giveUp k (s.stop p.state).2
  | .drop k => (p.held? k).map fun s => p.giveUp k (s.drop p.state)

/-- The program after several calls, if they are possible one after the other. -/
def afterAll? (p : TimerProgram) (calls : List TimerCall) : Option TimerProgram :=
  calls.foldlM after? p

end TimerProgram

/-! ## Section 2: What one call does to the process -/

namespace TimerState

/-- Nothing is sampled, and the signal is answered in the given way. -/
def idle (disposition : Disposition) : TimerState where
  active := none
  timer := none
  disposition

/-- Samples go to the given buffer. -/
def sampling (buffer period : Nat) : TimerState where
  active := some buffer
  timer := some period
  disposition := .capture

theorem eq_idle {state : TimerState} (hactive : state.active = none) (htimer : state.timer = none) :
    state = idle state.disposition := by
  cases state
  cases hactive
  cases htimer
  rfl

end TimerState

namespace TimerSampler

/-- What is armed is disarmed once and for all. -/
theorem disarm_of_armed {s : TimerSampler} (h : s.armed = true) (state : TimerState) :
    s.disarm state = ({ s with armed := false }, .idle s.previous) := by
  rw [disarm, if_pos h]
  rfl

theorem drop_of_armed {s : TimerSampler} (h : s.armed = true) (state : TimerState) :
    s.drop state = .idle s.previous := by
  rw [drop, disarm_of_armed h]

/-- Stopping disarms twice, and the second time nothing is left to do. -/
theorem stop_of_armed {s : TimerSampler} (h : s.armed = true) (state : TimerState) :
    s.stop state = (s.buffer, .idle s.previous) := by
  rw [stop, disarm_of_armed h]
  rfl

/-- What comes of a start. -/
inductive Started (state : TimerState) (buffer frequencyHz : Nat) (faults : StartFaults) :
    Except ProfilerError TimerSampler × TimerState → Prop where
  /-- Another sampler is armed. -/
  | refused {other : Nat} (h : state.active = some other) :
      Started state buffer frequencyHz faults (.error .sessionActive, state)
  /-- The handler is not installed. -/
  | noHandler {e : IoError} (h : state.active = none) (hfault : faults.handler = some e) :
      Started state buffer frequencyHz faults (.error (.timerInstallFailed e), state)
  /-- The timer is not set, and the handler is taken back. -/
  | noTimer {e : IoError} (h : state.active = none) (hhandler : faults.handler = none)
      (hfault : faults.timer = some e) :
      Started state buffer frequencyHz faults
        (.error (.timerInstallFailed e), .idle state.disposition)
  | armed (h : state.active = none) (hhandler : faults.handler = none)
      (htimer : faults.timer = none) :
      Started state buffer frequencyHz faults
        (.ok { buffer, previous := state.disposition, armed := true },
          .sampling buffer (Timer.intervalMicros frequencyHz))

theorem start_cases (state : TimerState) (buffer frequencyHz : Nat) (faults : StartFaults) :
    Started state buffer frequencyHz faults (start state buffer frequencyHz faults) := by
  cases hactive : state.active with
  | some other =>
    have hstart : start state buffer frequencyHz faults = (.error .sessionActive, state) := by
      simp only [start, hactive]
    rw [hstart]
    exact .refused hactive
  | none =>
    cases hhandler : faults.handler with
    | some e =>
      have hstart : start state buffer frequencyHz faults =
          (.error (.timerInstallFailed e), state) := by
        simp only [start, hactive, hhandler]
        rw [← hactive]
      rw [hstart]
      exact .noHandler hactive hhandler
    | none =>
      cases htimer : faults.timer with
      | some e =>
        have hstart : start state buffer frequencyHz faults =
            (.error (.timerInstallFailed e), .idle state.disposition) := by
          simp only [start, hactive, hhandler, htimer, disarm, drop]
          rfl
        rw [hstart]
        exact .noTimer hactive hhandler htimer
      | none =>
        have hstart : start state buffer frequencyHz faults =
            (.ok { buffer, previous := state.disposition, armed := true },
              .sampling buffer (Timer.intervalMicros frequencyHz)) := by
          simp only [start, hactive, hhandler, htimer]
          rfl
        rw [hstart]
        exact .armed hactive hhandler htimer

end TimerSampler

/-! ## Section 3: What calls preserve -/

namespace TimerProgram

/-- The program holds an armed sampler, which is the only sampler that it holds. -/
structure HoldsOnly (p : TimerProgram) (k : Nat) (s : TimerSampler) : Prop where
  held : p.held? k = some s
  armed : s.armed = true
  only : ∀ j t, p.held? j = some t → j = k

/--
The process samples for the one sampler that the program holds, which will restore the given answer
to the signal; or it is idle and answers so, and the program holds none.
-/
inductive Sound (disposition : Disposition) (p : TimerProgram) : Prop where
  | idle (hstate : p.state = .idle disposition) (hnone : ∀ k, p.held? k = none)
  | sampling {k : Nat} {s : TimerSampler} {period : Nat}
      (hstate : p.state = .sampling s.buffer period) (hholds : p.HoldsOnly k s)
      (hprevious : s.previous = disposition)

theorem held?_handOut (samplers : List (Option TimerSampler)) (state : TimerState)
    (s : TimerSampler) (j : Nat) :
    held? { state, samplers := samplers ++ [some s] } j =
      if j = samplers.length then some s else samplers[j]?.join := by
  simp only [held?, List.getElem?_append, List.getElem?_singleton]
  split <;> split <;> simp_all <;> omega

theorem held?_giveUp (p : TimerProgram) (k : Nat) (state : TimerState) (j : Nat) :
    (p.giveUp k state).held? j = if k = j then none else p.held? j := by
  simp only [giveUp, held?, List.getElem?_set]
  split
  · split <;> rfl
  · rfl

variable {disposition : Disposition}

/-- A program that gives up the one sampler it holds leaves the process idle. -/
theorem HoldsOnly.giveUp {p : TimerProgram} {k : Nat} {s : TimerSampler} (h : p.HoldsOnly k s)
    (hprevious : s.previous = disposition) :
    Sound disposition (p.giveUp k (.idle s.previous)) := by
  refine .idle (by rw [TimerProgram.giveUp, hprevious]) fun j => ?_
  rw [held?_giveUp]
  split
  · rfl
  · next hne => exact Option.eq_none_iff_forall_ne_some.mpr fun t ht => hne (h.only j t ht).symm

/-- A sampler that a sound program holds is the one that the process samples for. -/
theorem Sound.holdsOnly {p : TimerProgram} (h : p.Sound disposition) {k : Nat} {s : TimerSampler}
    (hheld : p.held? k = some s) : p.HoldsOnly k s ∧ s.previous = disposition := by
  cases h with
  | idle hstate hnone => simp [hnone k] at hheld
  | sampling hstate hholds hprevious =>
    cases hholds.only k s hheld
    cases hholds.held.symm.trans hheld
    exact ⟨hholds, hprevious⟩

/-- **One call** keeps the program sound. -/
theorem Sound.step {p p' : TimerProgram} {call : TimerCall} (h : p.Sound disposition)
    (hstep : p.after? call = some p') : p'.Sound disposition := by
  cases call with
  | start buffer frequencyHz faults =>
    have hstarted := TimerSampler.start_cases p.state buffer frequencyHz faults
    generalize hresult : TimerSampler.start p.state buffer frequencyHz faults = result at hstarted
    rw [after?, hresult] at hstep
    cases hstarted with
    | refused hactive | noHandler hactive hfault =>
      -- nothing has changed
      cases hstep
      exact h
    | noTimer hactive hhandler hfault =>
      cases hstep
      cases h with
      | idle hstate hnone => exact .idle (by rw [hstate]; rfl) hnone
      | sampling hstate hholds hprevious =>
        rw [hstate] at hactive
        contradiction
    | armed hactive hhandler htimer =>
      cases hstep
      cases h with
      | idle hstate hnone =>
        refine Sound.sampling (k := p.samplers.length)
          (s := { buffer, previous := p.state.disposition, armed := true }) rfl
          ⟨?_, rfl, fun j t ht => ?_⟩ (by rw [hstate]; rfl)
        · rw [held?_handOut, if_pos rfl]
        · rw [held?_handOut] at ht
          split at ht
          · assumption
          · exact absurd ((hnone j).symm.trans ht) nofun
      | sampling hstate hholds hprevious =>
        rw [hstate] at hactive
        contradiction
  | stop k =>
    obtain ⟨s, hheld, rfl⟩ := Option.map_eq_some_iff.mp hstep
    obtain ⟨hholds, hprevious⟩ := h.holdsOnly hheld
    rw [TimerSampler.stop_of_armed hholds.armed]
    exact hholds.giveUp hprevious
  | drop k =>
    obtain ⟨s, hheld, rfl⟩ := Option.map_eq_some_iff.mp hstep
    obtain ⟨hholds, hprevious⟩ := h.holdsOnly hheld
    rw [TimerSampler.drop_of_armed hholds.armed]
    exact hholds.giveUp hprevious

theorem afterAll?_cons_eq_some_iff (p : TimerProgram) (call : TimerCall) (calls : List TimerCall)
    (p' : TimerProgram) :
    p.afterAll? (call :: calls) = some p' ↔
      ∃ p₁, p.after? call = some p₁ ∧ p₁.afterAll? calls = some p' := by
  simp only [afterAll?, List.foldlM_cons]
  exact Option.bind_eq_some_iff

/-- **Every run** keeps the program sound. -/
theorem Sound.run {p p' : TimerProgram} {calls : List TimerCall} (h : p.Sound disposition)
    (hrun : p.afterAll? calls = some p') : p'.Sound disposition := by
  induction calls generalizing p with
  | nil =>
    cases hrun
    exact h
  | cons call calls ih =>
    obtain ⟨p₁, hstep, hrest⟩ := (afterAll?_cons_eq_some_iff ..).mp hrun
    exact ih (h.step hstep) hrest

/-- Some sampler that the program holds is armed exactly if samples go somewhere. -/
theorem Sound.active_iff {p : TimerProgram} (h : p.Sound disposition) :
    (∃ buffer, p.state.active = some buffer) ↔ ∃ k s, p.held? k = some s ∧ s.armed = true := by
  cases h with
  | idle hstate hnone => simp [hstate, hnone, TimerState.idle]
  | sampling hstate hholds hprevious =>
    simp only [hstate, TimerState.sampling, Option.some.injEq, exists_eq', true_iff]
    exact ⟨_, _, hholds.held, hholds.armed⟩

/-- As long as samples go nowhere, the process is idle. -/
theorem Sound.eq_idle {p : TimerProgram} (h : p.Sound disposition)
    (hactive : p.state.active = none) : p.state = .idle disposition := by
  cases h with
  | idle hstate hnone => exact hstate
  | sampling hstate hholds hprevious =>
    rw [hstate] at hactive
    contradiction

/-- Samples go nowhere unless a sampler is armed. -/
theorem Sound.not_armed {p : TimerProgram} (h : p.Sound disposition)
    (hactive : p.state.active = none) : ¬∃ k s, p.held? k = some s ∧ s.armed = true := by
  rw [← h.active_iff, hactive]
  simp

/-- The process samples for the sampler that the program holds. -/
theorem Sound.active_of_held? {p : TimerProgram} (h : p.Sound disposition) {k : Nat}
    {s : TimerSampler} (hheld : p.held? k = some s) : p.state.active = some s.buffer := by
  cases h with
  | idle hstate hnone => simp [hnone k] at hheld
  | sampling hstate hholds hprevious =>
    cases hholds.only k s hheld
    cases hholds.held.symm.trans hheld
    rw [hstate]
    rfl

theorem length_le_of_step {p p' : TimerProgram} {call : TimerCall} (h : p.after? call = some p') :
    p.samplers.length ≤ p'.samplers.length := by
  cases call with
  | start buffer frequencyHz faults =>
    rw [after?] at h
    split at h <;> cases h
    · simp
    · exact Nat.le_refl _
  | stop j | drop j =>
    obtain ⟨s, hs, rfl⟩ := Option.map_eq_some_iff.mp h
    simp [giveUp]

/-- No call gives a number that was given out before to another sampler. -/
theorem held?_of_step {p p' : TimerProgram} {call : TimerCall} {k : Nat} {s : TimerSampler}
    (hk : k < p.samplers.length) (hstep : p.after? call = some p') (hheld : p'.held? k = some s) :
    p.held? k = some s := by
  cases call with
  | start buffer frequencyHz faults =>
    rw [after?] at hstep
    split at hstep <;> cases hstep
    · rwa [held?_handOut, if_neg (Nat.ne_of_lt hk)] at hheld
    · exact hheld
  | stop j | drop j =>
    obtain ⟨t, ht, rfl⟩ := Option.map_eq_some_iff.mp hstep
    rw [held?_giveUp] at hheld
    split at hheld
    · contradiction
    · exact hheld

/-- A sampler that is held after a run was held under its number before. -/
theorem held?_of_run {p p' : TimerProgram} {calls : List TimerCall} {k : Nat} {s : TimerSampler}
    (hk : k < p.samplers.length) (hrun : p.afterAll? calls = some p')
    (hheld : p'.held? k = some s) : p.held? k = some s := by
  induction calls generalizing p with
  | nil =>
    cases hrun
    exact hheld
  | cons call calls ih =>
    obtain ⟨p₁, hstep, hrest⟩ := (afterAll?_cons_eq_some_iff ..).mp hrun
    exact held?_of_step hk hstep (ih (Nat.lt_of_lt_of_le hk (length_le_of_step hstep)) hrest)

/-! ## Section 4: Sessions -/

/--
**Sessions are exclusive and leave no trace.** Whatever calls a program has made since it was idle,
at most one sampler that it holds is armed. A further start is refused exactly if one is armed, and
then changes nothing; if it fails otherwise, the process is idle and answers the signal as before.
If it succeeds, its sampler stays armed until it is given up, whatever calls come in between, and
stopping or dropping it leaves the process idle, with the answer to the signal that there was before
the start.
-/
theorem sessions_leave_no_trace {state : TimerState} (hactive : state.active = none)
    (htimer : state.timer = none) {calls : List TimerCall} {p : TimerProgram}
    (hrun : afterAll? { state } calls = some p) :
    (∀ i j s t, p.held? i = some s → s.armed = true → p.held? j = some t → t.armed = true →
      i = j) ∧
    ∀ buffer frequencyHz faults result state',
      TimerSampler.start p.state buffer frequencyHz faults = (result, state') →
      (result = .error .sessionActive ↔ ∃ k s, p.held? k = some s ∧ s.armed = true) ∧
      (result = .error .sessionActive → state' = p.state) ∧
      (∀ e, result = .error (.timerInstallFailed e) → state' = .idle p.state.disposition) ∧
      ((∃ sampler, result = .ok sampler) →
        ∀ later q s, p.afterAll? (.start buffer frequencyHz faults :: later) = some q →
        q.held? p.samplers.length = some s →
        s.armed = true ∧ q.state.active = some buffer ∧
          s.stop q.state = (buffer, .idle p.state.disposition) ∧
          s.drop q.state = .idle p.state.disposition) := by
  have hsound : p.Sound state.disposition :=
    Sound.run (.idle (TimerState.eq_idle hactive htimer) fun _ => rfl) hrun
  refine ⟨fun i j s t hi _ hj _ => (hsound.holdsOnly hj).1.only i s hi, ?_⟩
  intro buffer frequencyHz faults result state' hstart
  have hstarted := TimerSampler.start_cases p.state buffer frequencyHz faults
  rw [hstart] at hstarted
  cases hstarted with
  | refused hother =>
    refine ⟨iff_of_true rfl (hsound.active_iff.mp ⟨_, hother⟩), fun _ => rfl, nofun, ?_⟩
    exact fun ⟨_, hok⟩ => nomatch hok
  | noHandler hfree hfault =>
    refine ⟨iff_of_false nofun (hsound.not_armed hfree), nofun, fun e _ => ?_, ?_⟩
    · rw [hsound.eq_idle hfree]
      rfl
    · exact fun ⟨_, hok⟩ => nomatch hok
  | noTimer hfree hhandler hfault =>
    refine ⟨iff_of_false nofun (hsound.not_armed hfree), nofun, fun e _ => rfl, ?_⟩
    exact fun ⟨_, hok⟩ => nomatch hok
  | armed hfree hhandler htimer =>
    refine ⟨iff_of_false nofun (hsound.not_armed hfree), nofun, nofun, ?_⟩
    rintro - later q s hlater hheld
    -- what the number stands for later is the sampler that this start hands out
    obtain ⟨p₁, hstep, hrest⟩ := (afterAll?_cons_eq_some_iff ..).mp hlater
    rw [after?, hstart] at hstep
    cases hstep
    have hfirst := held?_of_run (k := p.samplers.length) (by simp) hrest hheld
    rw [held?_handOut, if_pos rfl] at hfirst
    cases hfirst
    refine ⟨rfl, ?_, TimerSampler.stop_of_armed rfl q.state, TimerSampler.drop_of_armed rfl q.state⟩
    exact (hsound.run hlater).active_of_held? hheld

private def unsampled : TimerState where
  disposition := .other 7

/-- A session during which another one is refused, and a start whose timer is not set. -/
private def earlierCalls : List TimerCall :=
  [.start 1 99 {}, .start 2 50 {}, .stop 0,
   .start 3 10 { timer := some (.system .invalidArgument) }]

/-- The next session is not disturbed by a start during it, and its end restores the answer to the
signal that there was before all of them. -/
theorem sessions_leave_no_trace_after_failures :
    ∃ p q, afterAll? { state := unsampled } earlierCalls = some p ∧
      p.afterAll? [.start 4 997 {}, .start 5 1 {}] = some q ∧
      ∃ s, q.held? p.samplers.length = some s ∧ s.armed = true ∧ q.state.active = some 4 ∧
        s.stop q.state = (4, .idle (.other 7)) ∧ s.drop q.state = .idle (.other 7) := by
  refine ⟨_, _, rfl, rfl, _, rfl, ?_⟩
  exact ((@sessions_leave_no_trace unsampled rfl rfl earlierCalls _ rfl).2
    4 997 {} _ _ rfl).2.2.2 ⟨_, rfl⟩ [.start 5 1 {}] _ _ rfl rfl

end TimerProgram

end StackProfiler
