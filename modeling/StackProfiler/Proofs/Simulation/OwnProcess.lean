import StackProfiler.Proofs.Sample.CappedList
import StackProfiler.Proofs.Symbol.MapListing
import StackProfiler.Proofs.Timer.Exclusive
import StackProfiler.Proofs.Timer.StackWalk
import StackProfiler.Simulation.OwnProcess

/-!
# Sessions of the simulated process

The signals that interrupt the simulated process between the start and the stop of a sampler reach
the buffer of the sampler, and no others do: `session_captures` says what the buffer holds, and that
the process is left as it was. Every sample has addresses of the simulated code only
(`contains_of_mem_frames`).

- **one signal**: `bufferAt_signal`, with an active sampler, and `signal_of_idle`, without one;
- **any number of signals**: `bufferAt_signals` and `signals_of_idle`.
-/

namespace StackProfiler

namespace SampleBuffer

/-! ## Section 1: The same sample again and again -/

/-- A buffer that one sample is offered to so many times. -/
theorem captureAll_replicate (capacity : Nat) {s : RawSample} (h : s.frames.isEmpty = false)
    (count : Nat) :
    let b := (withCapacity capacity).captureAll (List.replicate count (.captureWith s))
    b.capacity = capacity ∧ b.next = min count capacity ∧ b.dropped = count - capacity ∧
      b.toList = List.replicate (min count capacity) s := by
  induction count with
  | zero => exact ⟨rfl, (Nat.zero_min _).symm, (Nat.zero_sub _).symm, by rw [Nat.zero_min]; rfl⟩
  | succ count ih =>
    obtain ⟨hcapacity, hnext, hdropped, hcontents⟩ := ih
    rw [List.replicate_succ', captureAll_append]
    generalize (withCapacity capacity).captureAll (List.replicate count (.captureWith s)) = b at *
    have hone : b.captureAll [.captureWith s] = (b.captureWith fun _ => s).2.2 := rfl
    have hroom : b.room = capacity - min count capacity := by rw [room, hcapacity, hnext]
    rw [hone, SampleBuffer.captureWith]
    cases hfull : b.isFull with
    | true =>
      rw [isFull_iff, hroom] at hfull
      rw [if_pos rfl]
      refine ⟨hcapacity, ?_, ?_, ?_⟩
      · simp only [drop, hnext]; omega
      · simp only [drop, hdropped]; omega
      · rw [show min (count + 1) capacity = min count capacity by omega]
        exact hcontents
    | false =>
      have hopen : b.room ≠ 0 := by
        rw [ne_eq, ← isFull_iff, hfull]
        exact Bool.false_ne_true
      rw [if_neg Bool.false_ne_true, push_of_room h hopen]
      rw [hroom] at hopen
      refine ⟨hcapacity, ?_, ?_, ?_⟩
      · simp only [storing, hnext, List.length_singleton]; omega
      · simp only [storing, hdropped]; omega
      · rw [show min (count + 1) capacity = min count capacity + 1 by omega, List.replicate_succ',
          ← hcontents]
        simp [toList, storing]

end SampleBuffer

namespace Simulation

namespace SampledProcess

/-! ## Section 2: Signals -/

variable {p : SampledProcess} {i : Interrupt} {number : Nat}

theorem bufferAt_setBuffer (p : SampledProcess) (number : Nat) (b : SampleBuffer) :
    (p.setBuffer number b).bufferAt number = b := by
  simp [setBuffer, bufferAt]

theorem signal_of_active (h : p.timer.active = some number) :
    p.signal i = p.setBuffer number (i.captureInto (p.bufferAt number)) := by
  rw [signal, h]

/-- Without an active sampler a signal is lost. -/
theorem signal_of_idle (h : p.timer.active = none) : p.signal i = p := by
  rw [signal, h]

theorem timer_signal (i : Interrupt) (p : SampledProcess) : (p.signal i).timer = p.timer := by
  unfold signal
  split <;> rfl

theorem samplers_signal (i : Interrupt) (p : SampledProcess) :
    (p.signal i).samplers = p.samplers := by
  unfold signal
  split <;> rfl

/-- Signals change neither the timer nor the samplers. -/
theorem unchanged_signals (i : Interrupt) (p : SampledProcess) (count : Nat) :
    (p.signals i count).timer = p.timer ∧ (p.signals i count).samplers = p.samplers := by
  induction count with
  | zero => exact ⟨rfl, rfl⟩
  | succ count ih =>
    rw [signals, Nat.repeat, ← signals]
    exact ⟨(timer_signal i _).trans ih.1, (samplers_signal i _).trans ih.2⟩

theorem signals_of_idle (h : p.timer.active = none) (i : Interrupt) (count : Nat) :
    p.signals i count = p := by
  induction count with
  | zero => rfl
  | succ count ih => rw [signals, Nat.repeat, ← signals, ih, signal_of_idle h]

/-- **Signals reach the buffer of the active sampler**, one after the other. -/
theorem bufferAt_signals (h : p.timer.active = some number) (i : Interrupt) (count : Nat) :
    (p.signals i count).bufferAt number =
      (p.bufferAt number).captureAll (List.replicate count (.captureWith i.sample)) := by
  induction count with
  | zero => rfl
  | succ count ih =>
    have hactive : (p.signals i count).timer.active = some number := by
      rw [(unchanged_signals i p count).1, h]
    rw [signals, Nat.repeat, ← signals, signal_of_active hactive, bufferAt_setBuffer, ih,
      List.replicate_succ', SampleBuffer.captureAll, SampleBuffer.captureAll, List.foldl_append]
    rfl

/-! ## Section 3: Sessions -/

/-- A process without an active sampler starts one into a new buffer. -/
theorem exists_start (h : p.timer.active = none) (name : String) (capacity frequencyHz : Nat) :
    ∃ p' number, p.start name capacity frequencyHz = .ok p' ∧
      p'.timer.active = some number ∧
      p'.sampler name = { buffer := number, previous := p.timer.disposition } ∧
      p'.bufferAt number = .withCapacity capacity := by
  have hstart : p.start name capacity frequencyHz =
      .ok (setBuffer
        { p with
          timer :=
            { active := some (p.buffers.length + 1)
              timer := some (Timer.intervalMicros frequencyHz)
              disposition := .capture }
          samplers :=
            (name, { buffer := p.buffers.length + 1, previous := p.timer.disposition }) ::
              p.samplers }
        (p.buffers.length + 1) (.withCapacity capacity)) := by
    simp only [start, TimerSampler.start, h]
  exact ⟨_, _, hstart, rfl, by simp [sampler, setBuffer], bufferAt_setBuffer _ _ _⟩

/--
**A session of the simulated process.** Whatever interrupts the process between start and stop, the
buffer of the session holds one sample for each of the first signals, as many as there is room for,
and the others are counted as dropped. The stop hands back the session's own buffer and leaves the
timer and the signal as they were before, so that later signals change nothing.
-/
theorem session_captures {before : Disposition} (hidle : p.timer = .idle before) (name : String)
    (capacity frequencyHz : Nat) (hframes : i.sample.frames.isEmpty = false) :
    ∃ p', p.start name capacity frequencyHz = .ok p' ∧
      ((p'.overrun i name).buffer name).dropped = 1 ∧
      ∀ count,
        let q := p'.signals i count
        (q.buffer name).toList = List.replicate (min count capacity) i.sample ∧
          (q.buffer name).dropped = count - capacity ∧
          (q.stop name).1 = true ∧ (q.stop name).2.timer = p.timer ∧
          (q.stop name).2.buffer name = q.buffer name ∧
          ∀ later more, (q.stop name).2.signals later more = (q.stop name).2 := by
  obtain ⟨p', number, hstart, hactive, hsampler, hbuffer⟩ :=
    exists_start (by rw [hidle]; rfl) name capacity frequencyHz
  have hsampler' : ∀ count, (p'.signals i count).sampler name =
      { buffer := number, previous := p.timer.disposition } := by
    intro count
    rw [sampler, (unchanged_signals i p' count).2]
    exact hsampler
  have hcaptured : ∀ count, (p'.signals i count).buffer name =
      (SampleBuffer.withCapacity capacity).captureAll
        (List.replicate count (.captureWith i.sample)) := by
    intro count
    rw [buffer, hsampler', bufferAt_signals hactive, hbuffer]
  refine ⟨p', hstart, ?_, fun count => ?_⟩
  · have hfresh : p'.buffer name = .withCapacity capacity := hcaptured 0
    have hmore : (SampleBuffer.withCapacity capacity).capacity + 1 -
        (SampleBuffer.withCapacity capacity).next = capacity + 1 := rfl
    obtain ⟨-, -, hdropped, -⟩ := SampleBuffer.captureAll_replicate capacity hframes (capacity + 1)
    rw [overrun, hfresh, hmore, hcaptured, hdropped]
    omega
  · obtain ⟨-, -, hdropped, hcontents⟩ := SampleBuffer.captureAll_replicate capacity hframes count
    have hstop : ((p'.signals i count).stop name).2.timer = p.timer := by
      have harmed := TimerSampler.stop_of_armed
        (s := { buffer := number, previous := p.timer.disposition }) rfl (p'.signals i count).timer
      rw [stop, hsampler', harmed, hidle]
      rfl
    refine ⟨?_, ?_, ?_, hstop, ?_, ?_⟩
    · rw [hcaptured, hcontents]
    · rw [hcaptured, hdropped]
    · rw [stop, hsampler']
      exact beq_self_eq_true _
    · rfl
    · intro later more
      exact signals_of_idle (by rw [hstop, hidle]; rfl) later more

end SampledProcess

/-! ## Section 4: Interrupts -/

/-- The code of the simulated process. -/
def ownRegion : Region where
  start := ownCodeStart
  stop := ownCodeStop
  offset := 0
  permissions := "r-xp"
  path := ownPath

/-- The memory map of the simulated process is its code, whatever its number is. -/
theorem memoryMap_ownProcess (pid : Pid) :
    ({ entries := [ownProcess pid] } : ProcessTable).memoryMap pid = .ok [ownRegion] := by
  have hparse : MemoryMap.parse ownMaps = [ownRegion] := by decide +kernel
  have hfind : ({ entries := [ownProcess pid] } : ProcessTable).find? pid =
      some (ownProcess pid) :=
    List.find?_cons_of_pos (beq_self_eq_true pid)
  simp only [ProcessTable.memoryMap, ProcessTable.readFile, hfind]
  show Except.ok (MemoryMap.parse ownMaps) = .ok [ownRegion]
  rw [hparse]

/-- The interrupted frame is the first one that is not the handler's. -/
theorem head?_program (deep : Nat) :
    (interruptAt deep).program.head? =
      some (ownCodeStart + UInt64.ofNat (16 * (handlerDepth + 1))) := by
  have hpos : programDepth + deep = programDepth - 1 + deep + 1 := by
    simp only [programDepth]
    omega
  show (addresses handlerDepth (programDepth + deep)).head? = _
  rw [addresses, hpos, List.range_succ_eq_map]
  rfl

/-- **The samples of the simulated process** have the innermost frames of the program, as many as
the handler leaves room for. -/
theorem frames_interruptAt (deep : Nat) :
    (interruptAt deep).sample.frames =
      addresses handlerDepth (min (maxStackDepth - handlerDepth) (programDepth + deep)) := by
  have hlength : (interruptAt deep).handler.length = handlerDepth := by
    simp [interruptAt, addresses]
  have hhandler : ownCodeStart + UInt64.ofNat (16 * (handlerDepth + 1)) ∉
      (interruptAt deep).handler := by
    show _ ∉ addresses 0 handlerDepth
    decide
  have hprogram : (interruptAt deep).program = addresses handlerDepth (programDepth + deep) := rfl
  have hroom : (interruptAt deep).handler.length < maxStackDepth := by
    rw [hlength]
    decide
  rw [Interrupt.frames_sample_of_lt (head?_program deep) hhandler hroom, hlength, hprogram,
    addresses, addresses, ← List.map_take, List.take_range]

/-- **Every address of a sample** lies in the code of the simulated process. -/
theorem contains_of_mem_frames {deep : Nat} {address : UInt64}
    (h : address ∈ (interruptAt deep).sample.frames) : ownRegion.contains address = true := by
  rw [frames_interruptAt, addresses] at h
  obtain ⟨k, hk, rfl⟩ := List.mem_map.mp h
  rw [List.mem_range] at hk
  have hall : ∀ k < maxStackDepth - handlerDepth, ownRegion.contains
      (ownCodeStart + UInt64.ofNat (16 * (handlerDepth + k + 1))) = true := by decide
  exact hall k (by omega)

end Simulation

end StackProfiler
