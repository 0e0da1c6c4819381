import StackProfiler.Proofs.Sample.Capped
import StackProfiler.Timer.StackWalk

/-!
# What a walk of the own stack keeps

A walk looks for the interrupted frame among the first `maxStackDepth` frames that it sees, those of
the handler included. So the handler takes its frames from the interrupted program: a sample has
the frames of the program as far as they fit behind those of the handler
(`Interrupt.frames_sample_of_lt`), or the frames of the handler alone if these fill the walk
(`Interrupt.frames_sample_of_le`).
-/

namespace StackProfiler

namespace RawSample

/-! ## Section 1: Samples that hold the same -/

theorem beq_iff (s t : RawSample) :
    (s == t) = true ↔ s.frames = t.frames ∧ s.truncated = t.truncated := by
  have hdef : (s == t) = (s.frames == t.frames && s.truncated == t.truncated) := rfl
  rw [hdef, Bool.and_eq_true, beq_iff_eq, beq_iff_eq]

theorem truncated_ofFrames (frames : List UInt64) :
    (ofFrames frames).truncated = if maxStackDepth < frames.length then 1 else 0 := rfl

end RawSample

namespace Interrupt

/-! ## Section 2: Walks -/

/-- A walk keeps what is left of the frames that it has seen when it drops those before the
interrupted frame. -/
theorem frames_walk (stack : List UInt64) (interrupted? : Option UInt64) :
    (walk stack interrupted?).frames =
      (stack.take maxStackDepth).drop ((interrupted?.bind fun pc =>
        (stack.take maxStackDepth).findIdx? (· == pc)).getD 0) := by
  generalize hkept : (stack.take maxStackDepth).drop ((interrupted?.bind fun pc =>
    (stack.take maxStackDepth).findIdx? (· == pc)).getD 0) = kept
  have hlength : kept.length ≤ maxStackDepth := by
    rw [← hkept, List.length_drop, List.length_take]
    omega
  -- what was kept is not cut any further, so it is the sample of a stack but for the mark
  have hsame : (walk stack interrupted?).frames = (RawSample.ofFrames kept).frames := by
    simp only [walk, hkept, RawSample.frames, RawSample.ofFrames, Nat.min_eq_left hlength]
  rw [hsame, RawSample.frames_ofFrames, List.take_of_length_le hlength]

theorem truncated_walk (stack : List UInt64) (interrupted? : Option UInt64) :
    (walk stack interrupted?).truncated = if maxStackDepth < stack.length then 1 else 0 := rfl

variable {i : Interrupt} {pc : UInt64}

/-- The interrupted frame is not among those of the handler. -/
theorem findIdx?_handler (h : pc ∉ i.handler) (n : Nat) :
    (i.handler.take n).findIdx? (· == pc) = none := by
  rw [List.findIdx?_eq_none_iff]
  intro frame hframe
  rw [beq_eq_false_iff_ne]
  rintro rfl
  exact h (List.mem_of_mem_take hframe)

/-- **A handler that leaves room** is cut off, and the program has the room that is left. -/
theorem frames_sample_of_lt (hpc : i.program.head? = some pc) (hhandler : pc ∉ i.handler)
    (hroom : i.handler.length < maxStackDepth) :
    i.sample.frames = i.program.take (maxStackDepth - i.handler.length) := by
  obtain ⟨callers, hprogram⟩ := List.head?_eq_some_iff.mp hpc
  have hseen : (i.handler ++ i.program).take maxStackDepth =
      i.handler ++ i.program.take (maxStackDepth - i.handler.length) := by
    rw [List.take_append, List.take_of_length_le (Nat.le_of_lt hroom)]
  obtain ⟨room, hroom'⟩ : ∃ room, maxStackDepth - i.handler.length = room + 1 :=
    ⟨maxStackDepth - i.handler.length - 1, by omega⟩
  -- the search ends at the first frame behind the handler
  have hfound : (i.handler ++ i.program.take (maxStackDepth - i.handler.length)).findIdx?
      (· == pc) = some i.handler.length := by
    have hnone := findIdx?_handler hhandler i.handler.length
    rw [List.take_length] at hnone
    rw [List.findIdx?_append, hnone, hroom', hprogram, List.take_succ_cons, List.findIdx?_cons,
      beq_self_eq_true]
    simp
  rw [sample, frames_walk, hseen, interrupted?, hpc, Option.bind_some, hfound, Option.getD_some,
    List.drop_left]

/-- **A handler that fills the walk** hides the program, and its own frames are kept. -/
theorem frames_sample_of_le (hpc : i.program.head? = some pc) (hhandler : pc ∉ i.handler)
    (hfull : maxStackDepth ≤ i.handler.length) :
    i.sample.frames = i.handler.take maxStackDepth := by
  rw [sample, frames_walk, List.take_append_of_le_length hfull, interrupted?, hpc,
    Option.bind_some, findIdx?_handler hhandler, Option.getD_none, List.drop_zero]

theorem truncated_sample (i : Interrupt) :
    i.sample.truncated =
      if maxStackDepth < i.handler.length + i.program.length then 1 else 0 := by
  rw [sample, truncated_walk, List.length_append]

/-! ## Section 3: Samples of the interrupted program -/

/-- A sample lacks frames of the program if handler and program together exceed the limit. -/
theorem frames_sample_ne (hpc : i.program.head? = some pc) (hhandler : pc ∉ i.handler)
    (hnonempty : i.handler ≠ []) (hdeep : maxStackDepth < i.handler.length + i.program.length) :
    i.sample.frames ≠ i.program.take maxStackDepth := by
  intro hframes
  rcases Nat.lt_or_ge i.handler.length maxStackDepth with hroom | hfull
  · rw [frames_sample_of_lt hpc hhandler hroom] at hframes
    have hlength := congrArg List.length hframes
    rw [List.length_take, List.length_take] at hlength
    have hpos := List.length_pos_iff.mpr hnonempty
    omega
  · -- the interrupted frame would be one of the handler
    rw [frames_sample_of_le hpc hhandler hfull] at hframes
    obtain ⟨callers, hprogram⟩ := List.head?_eq_some_iff.mp hpc
    have hmem : pc ∈ i.program.take maxStackDepth := by
      rw [hprogram]
      exact List.mem_cons_self
    rw [← hframes] at hmem
    exact hhandler (List.mem_of_mem_take hmem)

/-- Within the limit, a sample is that of the program's stack. -/
theorem sample_beq_of_length_le (hpc : i.program.head? = some pc) (hhandler : pc ∉ i.handler)
    (hshort : i.handler.length + i.program.length ≤ maxStackDepth) :
    (i.sample == RawSample.ofFrames i.program) = true := by
  have hpos : 0 < i.program.length := by
    obtain ⟨callers, hprogram⟩ := List.head?_eq_some_iff.mp hpc
    rw [hprogram]
    exact Nat.succ_pos _
  rw [RawSample.beq_iff, RawSample.frames_ofFrames, RawSample.truncated_ofFrames, truncated_sample,
    frames_sample_of_lt hpc hhandler (by omega), List.take_of_length_le (by omega),
    List.take_of_length_le (by omega), if_neg (by omega), if_neg (by omega)]
  exact ⟨rfl, rfl⟩

/-- Without a handler, the walk starts at the interrupted frame. -/
theorem sample_beq_of_handler_eq_nil (hpc : i.program.head? = some pc) (hnil : i.handler = []) :
    (i.sample == RawSample.ofFrames i.program) = true := by
  have hhandler : pc ∉ i.handler := hnil ▸ List.not_mem_nil
  have hroom : i.handler.length < maxStackDepth := by
    rw [hnil]
    decide
  rw [RawSample.beq_iff, RawSample.frames_ofFrames, RawSample.truncated_ofFrames, truncated_sample,
    frames_sample_of_lt hpc hhandler hroom, hnil, List.length_nil, Nat.sub_zero, Nat.zero_add]
  exact ⟨rfl, rfl⟩

/--
**What a sample of the own stack holds.** If the interrupted frame is not among those of the
handler, a sample has the frames of the program as far as they fit behind those of the handler, and
none of them if the handler fills the walk. It is marked as cut exactly if handler and program
together exceed the depth limit. So it is the sample of the program's stack exactly if the two
stay within the limit, or if there are no frames of a handler.
-/
theorem sample_within_limit (hpc : i.program.head? = some pc) (hhandler : pc ∉ i.handler) :
    i.sample.frames =
        (if i.handler.length < maxStackDepth then
          i.program.take (maxStackDepth - i.handler.length)
        else i.handler.take maxStackDepth) ∧
      i.sample.isTruncated =
        decide (maxStackDepth < i.handler.length + i.program.length) ∧
      ((i.sample == RawSample.ofFrames i.program) = true ↔
        i.handler = [] ∨ i.handler.length + i.program.length ≤ maxStackDepth) := by
  refine ⟨?_, ?_, ?_, ?_⟩
  · split
    case isTrue hroom => exact frames_sample_of_lt hpc hhandler hroom
    case isFalse hfull => exact frames_sample_of_le hpc hhandler (Nat.not_lt.mp hfull)
  · rw [RawSample.isTruncated, truncated_sample]
    split <;> simp [*]
  · intro hsame
    by_contra hneither
    obtain ⟨hnonempty, hdeep⟩ := not_or.mp hneither
    rw [RawSample.beq_iff, RawSample.frames_ofFrames] at hsame
    exact frames_sample_ne hpc hhandler hnonempty (Nat.not_le.mp hdeep) hsame.1
  · rintro (hnil | hshort)
    · exact sample_beq_of_handler_eq_nil hpc hnil
    · exact sample_beq_of_length_le hpc hhandler hshort

/-- A stack of so many frames, with one frame of the handler. -/
private def underHandler (depth : Nat) : Interrupt where
  handler := [1]
  program := 2 :: List.replicate (depth - 1) 3

/-- Behind one frame of a handler, a stack of the largest depth loses its outermost frame, and is
marked as if it had been too deep. -/
theorem sample_within_limit_full :
    (underHandler 64).program.length = 64 ∧
      (underHandler 64).sample.frames = (underHandler 64).program.take 63 ∧
      (underHandler 64).sample.isTruncated = true ∧
      ¬((underHandler 64).sample == RawSample.ofFrames (underHandler 64).program) = true := by
  have hpc : (underHandler 64).program.head? = some 2 := rfl
  have hhandler : (2 : UInt64) ∉ (underHandler 64).handler := by decide
  obtain ⟨hframes, htruncated, hsame⟩ := sample_within_limit hpc hhandler
  refine ⟨rfl, hframes, htruncated, ?_⟩
  rw [hsame]
  decide

end Interrupt

end StackProfiler
