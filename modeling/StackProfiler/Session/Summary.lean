import StackProfiler.Process.Pid
import StackProfiler.Ring.Drain
import StackProfiler.StackFolder
import StackProfiler.Symbol.Resolver

/-!
# Profiling sessions

A session fills a buffer with samples and, once capturing is over, names and folds every sample of
it. The summary of a session says where each capture and each lookup went.
-/

namespace StackProfiler

/-- Sampling parameters of a session. -/
structure SessionConfig where
  frequencyHz : Nat := 99
  /-- Wall-clock length of a recording of another process, in milliseconds. -/
  durationMs : Nat := 5000
  /-- Capacity of the sample buffer. -/
  maxSamples : Nat := 500000
  /-- Pages of the ring's data area. -/
  dataPages : Nat := 128
  /-- Longest wait for the ring to become readable, in milliseconds. -/
  pollMs : Nat := 100
  cache : CacheConfig := {}
deriving DecidableEq, Repr

namespace SessionConfig

/-- The usual parameters for another process. -/
def external : SessionConfig := {}

/-- The usual parameters for sampling the own process by a timer. -/
def selfProfiling : SessionConfig :=
  { frequencyHz := 997, maxSamples := 100000 }

end SessionConfig

/-- The counters of a drained ring as a record. -/
def DrainStats.record (s : DrainStats) : Text.NumberRecord :=
  .record "DrainStats"
    [("records", .number s.records), ("samples", .number s.samples), ("lost", .number s.lost),
     ("truncated", .number s.truncated), ("sentinels_skipped", .number s.markersSkipped),
     ("discarded_bytes", .number s.discardedBytes), ("empty_stacks", .number s.emptyStacks)]

/-- Statistics at the end of a session. -/
structure SessionSummary where
  pid : Pid
  frequencyHz : Nat
  elapsedMs : Nat
  /-- Samples in the buffer when capturing stopped. -/
  captured : Nat
  /-- Captures lost to a full buffer. -/
  dropped : Nat
  /-- Captures of which frames were cut off. -/
  truncated : Nat
  /-- What happened in the ring, if there was one. -/
  ring : Option DrainStats
  resolver : ResolverStats
  regions : Nat
  /-- Samples that were counted in a folded stack. -/
  foldedSamples : Nat
  /-- Samples of which no frame was left. -/
  discardedSamples : Nat
  distinctStacks : Nat
deriving DecidableEq, Repr

def SessionSummary.record (s : SessionSummary) : Text.NumberRecord :=
  .record "SessionSummary"
    [("pid", .number s.pid.number), ("frequency_hz", .number s.frequencyHz),
     ("elapsed_ms", .number s.elapsedMs), ("captured", .number s.captured),
     ("dropped", .number s.dropped), ("truncated", .number s.truncated),
     ("ring", match s.ring with
       | some stats => .present stats.record
       | none => .absent),
     ("resolver", s.resolver.record), ("regions", .number s.regions),
     ("folded_samples", .number s.foldedSamples),
     ("discarded_samples", .number s.discardedSamples),
     ("distinct_stacks", .number s.distinctStacks)]

/-- A folded profile with its statistics. -/
structure SessionOutput (σ : Type) where
  folded : FoldedStacks
  summary : SessionSummary
  /-- What the source of names has become. -/
  names : σ

namespace Session

variable {σ : Type}

/-- Names and folds samples one after the other. -/
def foldSamples (folder : StackFolder) (resolver : Resolver σ) :
    List RawSample → Checked (StackFolder × Resolver σ)
  | [] => .ok (folder, resolver)
  | sample :: samples => do
    let (names, resolver) ← resolver.resolveSample sample
    let (_, folder) ← folder.addStack names
    foldSamples folder resolver samples

/-- Names and folds every sample of a buffer that is no longer being filled. -/
def foldBuffer (buffer : SampleBuffer) (resolver : Resolver σ) (filter : FrameFilter) (pid : Pid)
    (config : SessionConfig) (elapsedMs : Nat) (ring : Option DrainStats) :
    Checked (SessionOutput σ) := do
  let (folder, resolver) ← foldSamples { filter } resolver buffer.toList
  let foldedSamples ← folder.folded.totalSamples
  return {
    folded := folder.folded
    names := resolver.state
    summary := {
      pid
      frequencyHz := config.frequencyHz
      elapsedMs
      captured := buffer.size
      dropped := buffer.dropped
      truncated := buffer.truncated
      ring
      resolver := resolver.stats
      regions := resolver.regions.length
      foldedSamples
      discardedSamples := folder.discarded
      distinctStacks := folder.folded.size } }

end Session

end StackProfiler
