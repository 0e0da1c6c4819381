import StackProfiler.Proofs.Sample.Captures
import StackProfiler.Proofs.StackFolder
import StackProfiler.Proofs.Symbol.Naming
import StackProfiler.Session.Summary

/-!
# The profile of a session

What a session makes of a buffer of samples: every path counts the samples that have it, every
sample without a path is discarded, and neither the order of the samples nor the cache matters.
What a sample is counted under (`sampleFrames`) is defined without a resolver, a cache or a
profile.
-/

namespace StackProfiler

/-! ## Section 1: What a sample is counted under -/

/-- The names of the frames of a sample, deepest first. -/
def sampleNames (regions : List Region) (answer : String → UInt64 → Option String)
    (sample : RawSample) : List String :=
  (lookedUp sample.frames).map (nameOf regions answer)

/-- The frames of the path that a sample is counted under, root first. -/
def sampleFrames (regions : List Region) (answer : String → UInt64 → Option String)
    (filter : FrameFilter) (sample : RawSample) : List String :=
  normalizedFrames filter (sampleNames regions answer sample)

/-- Every address that is looked up for the sample has an offset that is a word. -/
def SampleFits (regions : List Region) (sample : RawSample) : Prop :=
  ∀ address ∈ lookedUp sample.frames, OffsetFits regions address

instance (regions : List Region) (sample : RawSample) : Decidable (SampleFits regions sample) :=
  List.decidableBAll (OffsetFits regions) (lookedUp sample.frames)

namespace Session

variable {σ : Type} {regions : List Region} {answer : String → UInt64 → Option String}
variable {filter : FrameFilter}

/-! ## Section 2: Folding samples -/

/-- **Folding samples** makes the folder hold their names, after those it held before. -/
theorem foldSamples_eq_ok {folder : StackFolder} {resolver : Resolver σ}
    {before : List (List String)} {samples : List RawSample} (hfolder : folder.Holds filter before)
    (hresolver : resolver.Knows regions answer)
    (hfits : ∀ sample ∈ samples, SampleFits regions sample)
    (hlength : before.length + samples.length < wordLimit 64) :
    ∃ folder' resolver', foldSamples folder resolver samples = .ok (folder', resolver') ∧
      folder'.Holds filter (before ++ samples.map (sampleNames regions answer)) := by
  induction samples generalizing folder resolver before with
  | nil => exact ⟨folder, resolver, rfl, by simpa using hfolder⟩
  | cons sample samples ih =>
    rw [List.length_cons] at hlength
    -- the first sample is named and added, and the others are folded after it
    obtain ⟨resolver₁, hresolve, hresolver₁⟩ :=
      hresolver.resolveSample (hfits sample (List.mem_cons_self ..))
    obtain ⟨folder₁, hadd, hfolder₁⟩ :=
      hfolder.addStack (sampleNames regions answer sample) (by omega)
    have hlength₁ : (before ++ [sampleNames regions answer sample]).length + samples.length <
        wordLimit 64 := by
      rw [List.length_append, List.length_singleton]
      omega
    obtain ⟨folder₂, resolver₂, hrest, hfolder₂⟩ :=
      ih hfolder₁ hresolver₁ (fun s hs => hfits s (List.mem_cons_of_mem _ hs)) hlength₁
    refine ⟨folder₂, resolver₂, ?_, by simpa using hfolder₂⟩
    rw [foldSamples, hresolve]
    simp only [bind, Except.bind]
    rw [← sampleNames, hadd]
    exact hrest

/-- What a session puts out: the profile of a folder that holds the samples of the buffer. -/
theorem foldBuffer_eq_ok {buffer : SampleBuffer} {resolver : Resolver σ}
    (hresolver : resolver.Knows regions answer)
    (hfits : ∀ sample ∈ buffer.toList, SampleFits regions sample)
    (hlength : buffer.toList.length < wordLimit 64) (filter : FrameFilter) (pid : Pid)
    (config : SessionConfig) (elapsedMs : Nat) (ring : Option DrainStats) :
    ∃ (folder : StackFolder) (output : SessionOutput σ),
      foldBuffer buffer resolver filter pid config elapsedMs ring = .ok output ∧
      folder.Holds filter (buffer.toList.map (sampleNames regions answer)) ∧
      output.folded = folder.folded ∧ output.summary.captured = buffer.size ∧
      output.summary.foldedSamples = folder.folded.total ∧
      output.summary.discardedSamples = folder.discarded := by
  obtain ⟨folder, resolver', hfold, hholds⟩ :=
    foldSamples_eq_ok (StackFolder.Holds.init filter) hresolver hfits (by simpa using hlength)
  rw [List.nil_append] at hholds
  -- the sum of all counts is at most the number of samples, so it is a word as well
  have htotal : folder.folded.total < wordLimit 64 := by
    have hsum := hholds.total_add_discarded
    rw [List.length_map] at hsum
    omega
  unfold foldBuffer
  rw [hfold]
  simp only [bind, Except.bind, FoldedStacks.totalSamples_eq_ok htotal, pure, Except.pure]
  exact ⟨folder, _, rfl, hholds, rfl, rfl, rfl, rfl⟩

/-! ## Section 3: The profile -/

private theorem countP_names (p : List String → Bool) (samples : List RawSample) :
    (samples.map (sampleNames regions answer)).countP p =
      samples.countP fun sample => p (sampleNames regions answer sample) :=
  List.countP_map

/-- A folder's count of a path is the number of samples that have frames and that path. -/
private theorem countOf_eq_countP {folder : StackFolder} {samples : List RawSample}
    (h : folder.Holds filter (samples.map (sampleNames regions answer))) (path : String) :
    folder.folded.countOf path = samples.countP fun sample =>
      sampleFrames regions answer filter sample ≠ [] ∧
        ";".intercalate (sampleFrames regions answer filter sample) = path := by
  by_cases hpath : path = ""
  · -- the empty path is that of the samples without frames, and it is not counted
    subst hpath
    rw [h.records.countOf_empty, eq_comm, List.countP_eq_zero]
    intro sample _
    have hempty : ";".intercalate (sampleFrames regions answer filter sample) = "" ↔
        sampleFrames regions answer filter sample = [] :=
      stackPath_eq_empty_iff
    simp [hempty]
  · rw [h.countOf_eq hpath, countP_names]
    apply List.countP_congr
    intro sample _
    simp only [beq_iff_eq, decide_eq_true_eq]
    constructor
    · rintro rfl
      exact ⟨fun hnil => hpath (stackPath_eq_empty_iff.mpr hnil), rfl⟩
    · exact And.right

private theorem discarded_eq_countP {folder : StackFolder} {samples : List RawSample}
    (h : folder.Holds filter (samples.map (sampleNames regions answer))) :
    folder.discarded = samples.countP fun sample =>
      sampleFrames regions answer filter sample = [] := by
  rw [h.discarded_eq, countP_names]
  apply List.countP_congr
  intro sample _
  rw [beq_iff_eq, decide_eq_true_eq]
  exact stackPath_eq_empty_iff

/--
**The profile of a session.** Every path counts the buffered samples that have frames and that
path, samples share a path exactly if they share their frames, the samples without frames are
discarded, and every captured sample is counted or discarded. A session over the same samples in
any order, with a cache of any sizes, has the same profile and discards as many.
-/
theorem foldBuffer_profile {capacity : Nat} {calls : List CaptureCall} {buffer : SampleBuffer}
    {source : NameSource σ} {state : σ} {cacheConfig : CacheConfig} {resolver : Resolver σ}
    (hbuffer : (SampleBuffer.withCapacity capacity).captureAll calls = buffer)
    (hcapacity : capacity < wordLimit 64) (hsource : source.Answers answer)
    (hresolver : Resolver.ofRegions regions source state cacheConfig = .ok resolver)
    (hfits : ∀ sample ∈ buffer.toList, SampleFits regions sample) (filter : FrameFilter) (pid : Pid)
    (config : SessionConfig) (elapsedMs : Nat) (ring : Option DrainStats) :
    ∃ output, foldBuffer buffer resolver filter pid config elapsedMs ring = .ok output ∧
      (∀ path, output.folded.countOf path = buffer.toList.countP fun sample =>
        sampleFrames regions answer filter sample ≠ [] ∧
          ";".intercalate (sampleFrames regions answer filter sample) = path) ∧
      (∀ sample ∈ buffer.toList, ∀ sample' ∈ buffer.toList,
        ";".intercalate (sampleFrames regions answer filter sample) =
            ";".intercalate (sampleFrames regions answer filter sample') ↔
          sampleFrames regions answer filter sample =
            sampleFrames regions answer filter sample') ∧
      output.summary.discardedSamples = (buffer.toList.countP fun sample =>
        sampleFrames regions answer filter sample = []) ∧
      output.summary.captured =
        output.summary.foldedSamples + output.summary.discardedSamples ∧
      ∀ (capacity' : Nat) (calls' : List CaptureCall) (buffer' : SampleBuffer) (state' : σ)
        (cacheConfig' : CacheConfig) (resolver' : Resolver σ),
        (SampleBuffer.withCapacity capacity').captureAll calls' = buffer' →
        buffer'.toList.Perm buffer.toList →
        Resolver.ofRegions regions source state' cacheConfig' = .ok resolver' →
        ∃ output', foldBuffer buffer' resolver' filter pid config elapsedMs ring = .ok output' ∧
          output'.folded = output.folded ∧
          output'.summary.discardedSamples = output.summary.discardedSamples := by
  have hsize : buffer.toList.length = buffer.size := by
    rw [← hbuffer]
    exact SampleBuffer.length_toList_captureAll capacity calls
  have hlength : buffer.toList.length < wordLimit 64 := by
    have hle := SampleBuffer.size_captureAll_le capacity calls
    rw [hbuffer] at hle
    omega
  -- all of the profile follows from what the folder holds
  obtain ⟨folder, output, hok, hholds, hfolded, hcaptured, htotal, hdiscarded⟩ :=
    foldBuffer_eq_ok (Resolver.Knows.ofRegions hsource hresolver) hfits hlength filter pid config
      elapsedMs ring
  refine ⟨output, hok, ?_, ?_, ?_, ?_, ?_⟩
  · intro path
    rw [hfolded]
    exact countOf_eq_countP hholds path
  · intro sample _ sample' _
    exact stackPath_inj
  · rw [hdiscarded]
    exact discarded_eq_countP hholds
  · rw [hcaptured, htotal, hdiscarded, hholds.total_add_discarded, List.length_map, hsize]
  · -- the other session folds the same observations in another order
    intro capacity' calls' buffer' state' cacheConfig' resolver' hbuffer' hperm hresolver'
    have hfits' : ∀ sample ∈ buffer'.toList, SampleFits regions sample :=
      fun sample hsample => hfits sample (hperm.mem_iff.mp hsample)
    obtain ⟨folder', output', hok', hholds', hfolded', -, -, hdiscarded'⟩ :=
      foldBuffer_eq_ok (Resolver.Knows.ofRegions hsource hresolver') hfits'
        (hperm.length_eq ▸ hlength) filter pid config elapsedMs ring
    refine ⟨output', hok', ?_, ?_⟩
    · rw [hfolded, hfolded']
      have hobservations := (hperm.map (sampleNames regions answer)).map
        fun names => (stackPath filter names, 1)
      exact hholds'.records.eq_of_perm hholds.records hobservations
        (hholds'.skippedLines_eq.trans hholds.skippedLines_eq.symm)
    · rw [hdiscarded, hdiscarded', discarded_eq_countP hholds, discarded_eq_countP hholds']
      exact hperm.countP_eq _

/-- One region, whose file names two offsets, one of them by a name that holds a separator. -/
private def demoRegion : Region where
  start := 0x1000
  stop := 0x2000
  offset := 0x400
  permissions := "r-xp"
  path := "/bin/demo"

private def demoAnswer (_ : String) (offset : UInt64) : Option String :=
  if offset = 0x410 then some "a;b" else if offset = 0x420 then some "main" else none

private def demoSource : NameSource Unit where
  lookup _ path offset := .ok (demoAnswer path offset, ())

/-- Two samples of one path, and two that the filter leaves nothing of. -/
private def demoCalls : List CaptureCall :=
  [.push (.ofFrames [0x1010, 0x1021]), .push (.ofFrames [0]),
    .captureWith (.ofFrames [0x1010, 0, 0x1021]), .captureWith (.ofFrames [0x3000])]

/-- With a cache of one slot, the two addresses of the path contend for it. -/
theorem foldBuffer_profile_contended :
    ∃ output, foldBuffer ((SampleBuffer.withCapacity 4).captureAll demoCalls)
        { regions := [demoRegion], source := demoSource, state := (),
          cache := { entries := #[none], probes := 1 } } .sentinels ⟨1⟩ {} 0 none = .ok output ∧
      output.folded.countOf "main;a:b" = 2 ∧ output.summary.discardedSamples = 2 ∧
      output.summary.captured = output.summary.foldedSamples + 2 := by
  have hcapacity : 4 < wordLimit 64 := by decide
  have hsource : demoSource.Answers demoAnswer := fun _ _ _ => ⟨(), rfl⟩
  have hresolver : Resolver.ofRegions [demoRegion] demoSource () { slots := 1, probes := 1 } =
      .ok { regions := [demoRegion], source := demoSource, state := (),
            cache := { entries := #[none], probes := 1 } } := by
    have hslots : Nat.nextPowerOfTwo 1 = 1 := by decide +kernel
    simp [Resolver.ofRegions, SymbolCache.ofConfig, hslots, Checked.fit, wordLimit, bind,
      Except.bind, pure, Except.pure]
  have hfits : ∀ sample ∈ ((SampleBuffer.withCapacity 4).captureAll demoCalls).toList,
      SampleFits [demoRegion] sample := by
    decide +kernel
  obtain ⟨output, hok, hcount, -, hdiscarded, hcaptured, -⟩ :=
    foldBuffer_profile rfl hcapacity hsource hresolver hfits .sentinels ⟨1⟩ {} 0 none
  have htwo : output.summary.discardedSamples = 2 := by
    rw [hdiscarded]
    decide +kernel
  refine ⟨output, hok, ?_, htwo, by rw [hcaptured, htwo]⟩
  rw [hcount]
  decide +kernel

end Session

end StackProfiler
