import StackProfiler.Proofs.Ring.RoundTrip

/-!
# The turns of a recording

A recording takes turns: the kernel writes call chains into the ring, and what is there is drained.
If the chains of each turn fit into the ring, and nothing goes wrong while the recording waits, then
nothing is lost on the way: after all turns, the buffer and the statistics are what the chains come
to (`takeTurns_reads`).
-/

namespace StackProfiler

namespace Turn

/-- The records that are written up to a turn. -/
def records (turn : Turn) : List WrittenRecord :=
  turn.chains.map .sample

/-- A turn in which nothing fails and nothing ends, and whose chains fit into a ring together. -/
structure IsSteady (turn : Turn) (size : Nat) : Prop where
  wait_eq : turn.wait = .ok true
  gone_eq : turn.gone = false
  small : ∀ record ∈ turn.records, record.size ≤ 65535
  fits : totalSize turn.records ≤ size

/-- Chains state no losses. -/
theorem sum_lostCount_append (read : List WrittenRecord) (turn : Turn) :
    ((read ++ turn.records).map (·.lostCount)).sum = (read.map (·.lostCount)).sum := by
  have hnone : ∀ count ∈ turn.records.map (·.lostCount), count = 0 := by
    intro count hcount
    simp only [records, List.map_map, List.mem_map] at hcount
    obtain ⟨chain, -, rfl⟩ := hcount
    rfl
  rw [List.map_append, List.sum_append, List.sum_eq_zero hnone, Nat.add_zero]

end Turn

namespace Recording

variable {size start capacity : Nat} {read pending : List WrittenRecord} {s : State}

/-- A write succeeds if the record fits into the ring together with all that is unread. -/
theorem RingRun.write_of_fits (h : RingRun size start capacity read pending s)
    {record : WrittenRecord} (hsmall : record.size ≤ 65535)
    (hfits : totalSize (pending ++ [record]) ≤ size)
    (hhead : start + totalSize (read ++ (pending ++ [record])) < wordLimit 64) :
    ∃ ring, s.ring.append record = .ok ring ∧
      RingRun size start capacity read (pending ++ [record]) { s with ring } := by
  have hpending : totalSize (pending ++ [record]) = totalSize pending + record.size := by
    simp [totalSize]
  have hwhole := totalSize_append read (pending ++ [record])
  have hspace : s.ring.head + record.size < wordLimit 64 := by
    rw [h.head_eq, h.tail_eq]
    omega
  obtain ⟨ring, happend, hnew⟩ := Ring.exists_append hsmall hspace
  have hunread : ∀ s', s.step (.write record) = .ok s' → s'.unread ≤ size := by
    intro s' hs'
    obtain ⟨ring', happend', hs'⟩ := Checked.bind_eq_ok_iff.mp hs'
    cases happend.symm.trans happend'
    cases hs'
    show ring.head - ring.tail ≤ size
    rw [hnew.head_eq, hnew.tail_eq, h.head_eq]
    omega
  obtain ⟨s', hstep, hrun⟩ := h.write hsmall hhead hunread
  obtain ⟨ring', happend', hs'⟩ := Checked.bind_eq_ok_iff.mp hstep
  cases hs'
  exact ⟨ring', happend', hrun⟩

/-- The kernel may write several chains, if they fit together. -/
theorem RingRun.fill (h : RingRun size start capacity read pending s) {chains : List (List UInt64)}
    (hsmall : ∀ record ∈ chains.map WrittenRecord.sample, record.size ≤ 65535)
    (hfits : totalSize (pending ++ chains.map .sample) ≤ size)
    (hhead : start + totalSize (read ++ (pending ++ chains.map .sample)) < wordLimit 64) :
    ∃ ring, chains.foldlM Ring.writeSample s.ring = .ok ring ∧
      RingRun size start capacity read (pending ++ chains.map .sample) { s with ring } := by
  induction chains generalizing pending s with
  | nil => exact ⟨s.ring, rfl, by simpa using h⟩
  | cons chain chains ih =>
    have hcons : pending ++ (chain :: chains).map WrittenRecord.sample =
        (pending ++ [.sample chain]) ++ chains.map .sample := by simp
    rw [hcons] at hfits hhead ⊢
    have hfirst := totalSize_append (pending ++ [.sample chain]) (chains.map .sample)
    have hwhole := totalSize_append read ((pending ++ [.sample chain]) ++ chains.map .sample)
    have hfront := totalSize_append read (pending ++ [.sample chain])
    obtain ⟨ring, happend, hrun⟩ := h.write_of_fits (hsmall _ List.mem_cons_self) (by omega)
      (by omega)
    obtain ⟨ring', hrest, hrun'⟩ :=
      ih hrun (fun record h => hsmall record (List.mem_cons_of_mem _ h)) hfits hhead
    refine ⟨ring', ?_, hrun'⟩
    rw [List.foldlM_cons, show s.ring.writeSample chain = .ok ring from happend]
    exact hrest

/-- What one turn does to a recording, if nothing fails. -/
theorem takeTurns_cons {turn : Turn} {turns : List Turn} {readable : Bool} {ring : Ring}
    {s' : State} (hwait : turn.wait = .ok readable) (hfill : turn.fill s.ring = .ok ring)
    (hdrain : State.catchUp { s with ring } readable = .ok s') :
    takeTurns s (turn :: turns) =
      if turn.gone then pure (true, s') else takeTurns s' turns := by
  have hring : (liftM (turn.fill s.ring) : Profiling Ring) = pure ring := by rw [hfill]; rfl
  have hstate : (liftM (State.catchUp { s with ring } readable) : Profiling State) = pure s' := by
    rw [hdrain]; rfl
  rw [takeTurns, hwait]
  show (liftM (turn.fill s.ring) >>= _ : Profiling _) = _
  rw [hring, pure_bind, hstate, pure_bind]

/-- **One turn** whose chains fit into the ring turns them into what was read. -/
theorem RingRun.turn (h : RingRun size start capacity read [] s) (hsize : 8 ≤ size) {turn : Turn}
    (hturn : turn.IsSteady size)
    (hhead : start + totalSize (read ++ turn.records) < wordLimit 64)
    (hlost : (read.map (·.lostCount)).sum < wordLimit 64) (turns : List Turn) :
    ∃ s', takeTurns s (turn :: turns) = takeTurns s' turns ∧
      RingRun size start capacity (read ++ turn.records) [] s' := by
  obtain ⟨ring, hfill, hpending⟩ := h.fill hturn.small hturn.fits hhead
  have hcount : ((read ++ turn.records).map (·.lostCount)).sum < wordLimit 64 := by
    rwa [turn.sum_lostCount_append]
  obtain ⟨s', hdrain, hdone⟩ := hpending.drain hsize hturn.small hhead hcount
  refine ⟨s', ?_, hdone⟩
  rw [takeTurns_cons hturn.wait_eq hfill hdrain, hturn.gone_eq, if_neg Bool.false_ne_true]

/-- **Any turns** whose chains fit into the ring, one turn at a time, lose nothing on the way. -/
theorem takeTurns_reads (h : RingRun size start capacity read [] s) (hsize : 8 ≤ size)
    {turns : List Turn} (hturns : ∀ turn ∈ turns, turn.IsSteady size)
    (hhead : start + totalSize (read ++ turns.flatMap Turn.records) < wordLimit 64)
    (hlost : (read.map (·.lostCount)).sum < wordLimit 64) :
    ∃ s', takeTurns s turns = pure (false, s') ∧
      RingRun size start capacity (read ++ turns.flatMap Turn.records) [] s' := by
  induction turns generalizing read s with
  | nil => exact ⟨s, rfl, by simpa using h⟩
  | cons turn turns ih =>
    rw [List.flatMap_cons, ← List.append_assoc] at hhead ⊢
    have hwhole := totalSize_append (read ++ turn.records) (turns.flatMap Turn.records)
    obtain ⟨s₁, hstep, hrun⟩ := h.turn hsize (hturns turn List.mem_cons_self) (by omega) hlost turns
    obtain ⟨s', hrest, hrun'⟩ := ih hrun (fun turn h => hturns turn (List.mem_cons_of_mem _ h))
      hhead (by rwa [turn.sum_lostCount_append])
    exact ⟨s', hstep.trans hrest, hrun'⟩

end Recording

end StackProfiler
