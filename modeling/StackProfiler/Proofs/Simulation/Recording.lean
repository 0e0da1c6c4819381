import StackProfiler.Proofs.Session.Turns
import StackProfiler.Simulation.Program

/-!
# Recordings of simulated programs

A program on the small processor shows what it will do, and a recording of it is known from that. A
program that loops in one instruction gives the same call chain in every turn, and fills the buffer
with the samples of it (`takeTurns_of_busy`); one that sleeps or ends gives none
(`takeTurns_of_idle`). How many instructions are run before a program is given up does not matter
once its behaviour has shown (`Processor.run_add`).
-/

namespace StackProfiler.Simulation

namespace Processor

/-! ## Section 1: Call chains -/

variable {code : Code} {p : Processor} {chain : List UInt64}

/-- **A behaviour that has shown** does not change if more instructions may be run. -/
theorem run_add {fuel : Nat} {behaviour : Behaviour} (h : run code fuel p = behaviour)
    (hshown : ∀ ms, behaviour ≠ .over ms) (more : Nat) : run code (fuel + more) p = behaviour := by
  induction fuel generalizing p with
  | zero => exact absurd h.symm (hshown _)
  | succ fuel ih =>
    rw [Nat.succ_add]
    rw [run] at h ⊢
    split at h
    · exact absurd h.symm (hshown _)
    · next i length _ =>
      cases hstep : execute code i { p with ip := p.ip + UInt64.ofNat length } with
      | inl shown => simpa [hstep] using h
      | inr next =>
        simp only [hstep] at h ⊢
        by_cases hloop : next.ip = p.ip
        · rwa [if_pos hloop] at h ⊢
        · rw [if_neg hloop] at h ⊢
          exact ih h

/-- No single instruction shows that a program loops. -/
theorem execute_ne_busy (code : Code) (i : Instruction) (p : Processor) (chain : List UInt64) :
    execute code i p ≠ .inl (.busy chain) := by
  cases i with
  | kernel =>
    rw [execute, callKernel]
    split <;> exact nofun
  | _ => exact nofun

/-- The call chain of a program that loops is that of a state of the processor. -/
theorem exists_chain_eq {fuel : Nat} (h : run code fuel p = .busy chain) :
    ∃ q : Processor, chain = q.chain := by
  induction fuel generalizing p with
  | zero => cases h
  | succ fuel ih =>
    rw [run] at h
    split at h
    · cases h
    · split at h
      · next behaviour hstep =>
        rw [h] at hstep
        exact absurd hstep (execute_ne_busy code _ _ chain)
      · split at h
        · cases h
          exact ⟨p, rfl⟩
        · exact ih h

theorem length_returns_le (p : Processor) (most : Nat) (frame : UInt64) :
    (p.returns most frame).length ≤ most := by
  induction most generalizing frame with
  | zero => exact Nat.le_refl 0
  | succ most ih =>
    rw [returns]
    split
    · exact Nat.succ_le_succ (ih _)
    · exact Nat.zero_le _

/-- A chain is a marker and no more addresses than the kernel follows. -/
theorem length_chain_le (p : Processor) : p.chain.length ≤ maxChain + 1 := by
  have hreturns := p.length_returns_le (maxChain - 1) (p.registers Register.bp)
  simp only [chain, List.length_cons, maxChain] at hreturns ⊢
  omega

end Processor

/-! ## Section 2: Turns -/

open Recording

variable {bytes : ByteArray} {chain : List UInt64} {config : SessionConfig}

/-- The call chain of a program file fits into a record. -/
theorem size_sample_of_busy (h : behaviourOf bytes = .busy chain) :
    (WrittenRecord.sample chain).size ≤ 1040 := by
  rw [behaviourOf] at h
  split at h
  · cases h
  · obtain ⟨p, rfl⟩ := Processor.exists_chain_eq h
    have hlength := p.length_chain_le
    rw [WrittenRecord.size_sample]
    simp only [Processor.maxChain] at hlength
    omega

/-- A turn in which the kernel writes the call chain of a program file once. -/
theorem isSteady_of_busy (h : behaviourOf bytes = .busy chain) {size : Nat} (hsize : 1040 ≤ size) :
    ({ chains := [chain] } : Turn).IsSteady size where
  wait_eq := rfl
  gone_eq := rfl
  small := by
    have hle := size_sample_of_busy h
    simp only [Turn.records, List.map_singleton, List.mem_singleton, forall_eq]
    omega
  fits := by
    have hle := size_sample_of_busy h
    simp only [Turn.records, List.map_singleton, totalSize, List.sum_singleton]
    omega

theorem flatMap_records_replicate (count : Nat) (chain : List UInt64) :
    (List.replicate count ({ chains := [chain] } : Turn)).flatMap Turn.records =
      List.replicate count (.sample chain) := by
  induction count with
  | zero => rfl
  | succ count ih =>
    rw [List.replicate_succ, List.flatMap_cons, ih]
    rfl

theorem totalSize_replicate (count : Nat) (record : WrittenRecord) :
    totalSize (List.replicate count record) = count * record.size := by
  simp [totalSize]

/-- The samples of one call chain, written again and again. -/
theorem offeredSamples_replicate (count : Nat) (chain : List UInt64) :
    offeredSamples (List.replicate count (.sample chain)) =
      (List.replicate count (RawSample.ofFrames (addressesOf chain))).filter
        (!·.frames.isEmpty) := by
  simp [offeredSamples, chainsOf, WrittenRecord.chain?]

/--
**A recording of a program that loops** takes as many samples as the buffer has room for, all of the
same call chain, and loses none, if the call chain fits into the ring once.
-/
theorem takeTurns_of_busy (h : behaviourOf bytes = .busy chain) (hduration : config.durationMs ≠ 0)
    {size : Nat} (hpower : size.isPowerOfTwo) (hsize : 1040 ≤ size)
    (hhead : config.maxSamples * 1040 < wordLimit 64) :
    ∃ ring s, Ring.zeroed size 0 = .ok ring ∧
      takeTurns (.initial ring config.maxSamples) (activityOf (behaviourOf bytes) config).turns =
        pure (false, s) ∧
      s.ring.tail = s.ring.head ∧
      s.buffer.toList = (List.replicate config.maxSamples
        (RawSample.ofFrames (addressesOf chain))).filter (!·.frames.isEmpty) ∧
      s.buffer.dropped = 0 := by
  have hturns : (activityOf (behaviourOf bytes) config).turns =
      List.replicate config.maxSamples { chains := [chain] } := by
    rw [h, activityOf, if_neg hduration]
  have hrecords := flatMap_records_replicate config.maxSamples chain
  have hone := Nat.mul_le_mul_left config.maxSamples (size_sample_of_busy h)
  obtain ⟨ring, hring⟩ := exists_zeroed hpower 0
  have hsteady : ∀ turn ∈ List.replicate config.maxSamples ({ chains := [chain] } : Turn),
      turn.IsSteady size :=
    fun turn hturn => List.eq_of_mem_replicate hturn ▸ isSteady_of_busy h hsize
  obtain ⟨s, hrun, hdone⟩ := takeTurns_reads (RingRun.initial hring config.maxSamples) (by omega)
    hsteady (by rw [hrecords, List.nil_append, totalSize_replicate]; omega) (by decide)
  rw [hrecords, List.nil_append] at hdone
  have hcut : (offeredSamples (List.replicate config.maxSamples (.sample chain))).length ≤
      config.maxSamples := by
    simpa using length_offeredSamples_le (List.replicate config.maxSamples (.sample chain))
  refine ⟨ring, s, hring, by rw [hturns, hrun], hdone.head_eq.symm, ?_, ?_⟩
  · rw [hdone.buffer_eq, SampleBuffer.toList_holding, List.take_of_length_le hcut,
      offeredSamples_replicate]
  · rw [hdone.buffer_eq]
    rfl

/-- A program that sleeps or ends gives no samples, and the recording stops early only if it ended
in time. -/
theorem takeTurns_of_idle {s : State} (hread : s.ring.hasPending = false)
    (hduration : config.durationMs ≠ 0) (ms : Nat) :
    takeTurns s (activityOf .asleep config).turns = pure (false, s) ∧
      takeTurns s (activityOf (.over ms) config).turns =
        pure (decide (ms ≤ config.durationMs), s) := by
  have hdrain : State.catchUp s false = .ok s := by
    rw [State.catchUp, hread]
    rfl
  have hasleep : activityOf .asleep config = { turns := [{ readable := false }] } :=
    if_neg hduration
  have hover : activityOf (.over ms) config =
      { turns := [{ readable := false, gone := ms ≤ config.durationMs }] } := if_neg hduration
  rw [hasleep, hover, takeTurns_cons rfl rfl hdrain, takeTurns_cons rfl rfl hdrain]
  refine ⟨rfl, ?_⟩
  by_cases hgone : ms ≤ config.durationMs <;> simp [hgone, takeTurns]

/-! ## Section 3: Worlds -/

/-- The processes of programs, numbered from some place on. -/
theorem find?_entries {programs : List Program} {i : Nat} {program : Program}
    (hi : programs[i]? = some program) (firstPid start : Nat) :
    ((programs.zipIdx start).map fun (p, k) => p.entry ⟨firstPid + k⟩).find?
        (·.pid == ⟨firstPid + (start + i : Nat)⟩) =
      some (program.entry ⟨firstPid + (start + i : Nat)⟩) := by
  induction programs generalizing i start with
  | nil => cases hi
  | cons first programs ih =>
    rw [List.zipIdx_cons, List.map_cons]
    cases i with
    | zero =>
      cases hi
      exact List.find?_cons_of_pos (beq_self_eq_true _)
    | succ i =>
      have hother : (first.entry ⟨firstPid + start⟩).pid ≠
          ⟨firstPid + (start + (i + 1) : Nat)⟩ := by
        intro hsame
        have hnumber : (firstPid : Int) + start = firstPid + (start + (i + 1) : Nat) :=
          congrArg Pid.number hsame
        omega
      have hrest := ih hi (start + 1)
      rw [show start + 1 + i = start + (i + 1) by omega] at hrest
      exact (List.find?_cons_of_neg (by simpa using hother)).trans hrest

/-- Every program is shown as a process of its own, and is recorded as what it is. -/
theorem find?_worldOf {programs : List Program} {i : Nat} {program : Program}
    (hi : programs[i]? = some program) (firstPid : Nat) {own : ProcessEntry}
    (hown : own.pid.number < firstPid) (config : SessionConfig) :
    let world := worldOf programs firstPid own
    world.processes.find? ⟨firstPid + i⟩ = some (program.entry ⟨firstPid + i⟩) ∧
      world.activity ⟨firstPid + i⟩ config = program.activity config := by
  have hother : own.pid ≠ ⟨firstPid + i⟩ := by
    intro hsame
    have hnumber : own.pid.number = (firstPid : Int) + i := congrArg Pid.number hsame
    omega
  refine ⟨?_, ?_⟩
  · have hfind := find?_entries hi firstPid 0
    rw [Nat.zero_add] at hfind
    exact (List.find?_cons_of_neg (by simpa using hother)).trans hfind
  · have hindex : ((firstPid : Int) + i - firstPid).toNat = i := by omega
    simp only [worldOf, hindex, hi]

end StackProfiler.Simulation
