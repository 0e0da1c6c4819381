import StackProfiler.Proofs.Command.Complaint
import StackProfiler.Proofs.Command.FailedDrawing
import StackProfiler.Proofs.FoldedStacks.ByLines

/-!
# Exit codes of commands

Every failure of a command is of a known kind, and quotes only names and paths of the invocation and
of the processes that exist. So the exit code of a run is known from the kind of its failure and
from these texts, and it is known when the exit code is the one that the cause asks for.

- **quoted texts**: `FromOutside`;
- **failures of commands**: `Raises`, with a rule for each way to build commands;
- **main statement**: `exit_code_follows_cause_iff`.
-/

namespace StackProfiler

open Arguments

/-! ## Section 1: Texts from outside -/

def Arguments.ResultPaths.texts (paths : ResultPaths) : List String :=
  paths.folded.toList ++ paths.svg.toList ++ paths.summary.toList

theorem Arguments.ResultPaths.mem_texts_iff {paths : ResultPaths} {path : String} :
    path ∈ paths.texts ↔ path ∈ paths.folded ∨ path ∈ paths.svg ∨ path ∈ paths.summary := by
  simp only [texts, List.mem_append, Option.mem_toList, Option.mem_def, or_assoc]

/-- The names and paths that an invocation gives. -/
def Arguments.Invocation.texts : Invocation → List String
  | .record options => options.process.toList ++ options.paths.texts
  | .selfProfile options => options.paths.texts
  | .render options => options.input.toList ++ options.output.toList
  | .diff options => [options.before, options.after] ++ options.output.toList

/-- What a failure may quote: what the invocation names, and what processes are called. -/
inductive FromOutside (invocation : Invocation) (w : World) : String → Prop where
  | argument {text : String} (h : text ∈ invocation.texts) : FromOutside invocation w text
  | executable {entry : ProcessEntry} {text : String} (h : entry ∈ w.processes.entries)
      (hexe : entry.exe = .ok text) : FromOutside invocation w text
  | command {entry : ProcessEntry} {stat text : String} (h : entry ∈ w.processes.entries)
      (hstat : entry.stat = .ok stat) (htext : commandOfStat stat = some text) :
      FromOutside invocation w text
  | memoryMap (pid : Pid) : FromOutside invocation w pid.mapsPath

/-! ## Section 2: Failures of the parts -/

/-- The failure is of a known kind, and the texts that it quotes are known. -/
def Raised (known : String → Prop) (f : Failure) : Prop :=
  ∃ c : Complaint, c.failure = f ∧ ∀ text ∈ c.quoted, known text

/-- The bytes of a profile can only fail to be UTF-8. -/
theorem FoldedStacks.eq_of_ofBytes_eq_error {bytes : ByteArray} {e : FoldError}
    (h : ofBytes bytes = .ok (.error e)) : e = .read .invalidUtf8 := by
  rw [ofBytes, addByteLines_eq] at h
  cases hread : (validLines (Text.lines 0x0a 0x0d bytes.data.toList)).foldlM addLine empty with
  | error fault =>
    rw [hread] at h
    contradiction
  | ok g =>
    rw [hread] at h
    have hresult := Except.ok.inj h
    split at hresult
    · contradiction
    · exact (Except.error.inj hresult).symm

namespace Command

variable {α β : Type} {known : String → Prop}

theorem Ends.ofExcept {r : Except Failure α} {w : World} {post : Except Failure α → World → Prop}
    (h : post r w) : (ofExcept r).Ends w post := by
  cases r with
  | ok a => exact .pure h
  | error f => exact .throw h

/-- A task that is joined has its result, or it broke down. -/
theorem join_ends (task : Checked α) (w : World) :
    (join task).Ends w fun r _ =>
      match r with
      | .ok a => task = .ok a
      | .error f => f = (Complaint.brokenTask w.brokenTask).failure := by
  refine .bind fun r w₁ hget => ?_
  cases hget
  dsimp only
  split
  · exact .pure rfl
  · exact .throw rfl

/-- If the command fails, the failure is of a known kind and quotes known texts. -/
def Raises (known : String → Prop) (c : Command α) : Prop :=
  ∀ w, c.Ends w fun r _ => ∀ f, r = .error f → Raised known f

namespace Raises

theorem pure (a : α) : Raises known (Pure.pure a) :=
  fun _ => .pure nofun

theorem throw {f : Failure} (h : Raised known f) : Raises known (throw f : Command α) := by
  intro w
  refine .throw fun f' hf => ?_
  cases hf
  exact h

theorem bind {x : Command α} {f : α → Command β} (hx : Raises known x)
    (hf : ∀ a, Raises known (f a)) : Raises known (x >>= f) := by
  intro w
  refine .bind ((hx w).mono fun r w₁ h => ?_)
  cases r with
  | ok a => exact hf a w₁
  | error e =>
    rintro f ⟨⟩
    exact h e rfl

theorem get : Raises known (MonadState.get : Command World) := by
  intro w r w' hrun
  cases hrun
  exact nofun

theorem modify (f : World → World) : Raises known (modify f : Command Unit) := by
  intro w r w' hrun
  cases hrun
  exact nofun

theorem forM {γ : Type} {f : γ → Command Unit} (h : ∀ c, Raises known (f c)) (cs : List γ) :
    Raises known (cs.forM f) := by
  induction cs with
  | nil => exact pure ()
  | cons c cs ih => exact (h c).bind fun _ => ih

theorem forM_option {γ : Type} {f : γ → Command Unit} {o : Option γ}
    (h : ∀ c ∈ o, Raises known (f c)) : Raises known (o.forM f) := by
  cases o with
  | none => exact pure ()
  | some c => exact h c rfl

/-- A computation on words is passed with its answer. -/
theorem ofChecked_bind {c : Checked α} {f : α → Command β}
    (h : ∀ a, c = .ok a → Raises known (f a)) : Raises known (ofChecked c >>= f) := by
  intro w
  exact .bind (.ofChecked fun a ha => h a ha w)

theorem ofExcept {r : Except Failure α} (h : ∀ f, r = .error f → Raised known f) :
    Raises known (ofExcept r) :=
  fun _ => .ofExcept h

theorem orErrno (use : FileUse) {path : String} (huse : use ≠ .parsing) (hpath : known path)
    (r : Except Errno α) : Raises known (orErrno (use.words ++ path) r) := by
  cases r with
  | ok a => exact pure a
  | error e =>
    refine throw ⟨.file use path (.system e), ?_, by simpa [Complaint.quoted] using hpath⟩
    rw [Complaint.failure, FileUse.cause, if_neg huse]
    rfl

theorem orIoError {context : String} (r : Except IoError α)
    (h : ∀ e, Raised known { contexts := [context], cause := .io e }) :
    Raises known (orIoError context r) := by
  cases r with
  | ok a => exact pure a
  | error e => exact throw (h e)

theorem orFoldError {context : String} {r : Except FoldError α}
    (h : ∀ e, r = .error e → Raised known { contexts := [context], cause := .fold e }) :
    Raises known (orFoldError context r) := by
  cases r with
  | ok a => exact pure a
  | error e => exact throw (h e rfl)

theorem orProfilerError {r : Except ProfilerError α}
    (h : ∀ e, r = .error e → ∀ text ∈ (Complaint.profiler e).quoted, known text) :
    Raises known (orProfilerError r) := by
  cases r with
  | ok a => exact pure a
  | error e => exact throw ⟨.profiler e, rfl, h e rfl⟩

theorem say (text : String) : Raises known (say text) :=
  modify _

theorem log (level : LogLevel) (topic message : String) : Raises known (log level topic message) :=
  modify _

theorem logAll (events : List LogEvent) : Raises known (logAll events) :=
  forM (fun _ => modify _) events

theorem orReportedError (events : ProfilerError → List LogEvent) {r : Except ProfilerError α}
    (h : ∀ e, r = .error e → ∀ text ∈ (Complaint.profiler e).quoted, known text) :
    Raises known (orReportedError events r) := by
  cases r with
  | ok a => exact pure a
  | error e => exact (logAll _).bind fun _ => throw ⟨.profiler e, rfl, h e rfl⟩

/-- A task is passed with its result, or it broke down. -/
theorem join_bind {task : Checked α} {f : α → Command β}
    (h : ∀ a, task = .ok a → Raises known (f a)) : Raises known (join task >>= f) := by
  intro w
  refine .bind ((join_ends task w).mono fun r w₁ hjoin => ?_)
  cases r with
  | ok a => exact h a hjoin w₁
  | error e =>
    rintro f ⟨⟩
    exact ⟨.brokenTask w.brokenTask, hjoin.symm, nofun⟩

theorem orRenderError (r : Except RenderError α) : Raises known (orRenderError r) := by
  cases r with
  | ok a => exact pure a
  | error e => exact throw ⟨.render e, rfl, nofun⟩

theorem parseFolded {context : String} (bytes : Except IoError ByteArray)
    (h : ∀ e, Raised known { contexts := [context], cause := .fold (.read e) }) :
    Raises known (parseFolded context bytes) := by
  refine (orFoldError fun e he => ?_).bind fun content => ?_
  · cases bytes with
    | ok _ => cases he
    | error e' =>
      cases he
      exact h e'
  · refine ofChecked_bind fun parsed hparsed => ?_
    refine (orFoldError fun e he => ?_).bind fun f => (log _ _ _).bind fun _ => pure f
    rw [he] at hparsed
    rw [FoldedStacks.eq_of_ofBytes_eq_error hparsed]
    exact h _

theorem readFolded {path : String} (hpath : known path) : Raises known (readFolded path) :=
  get.bind fun _ => (orErrno .opening nofun hpath _).bind fun _ =>
    (parseFolded _ fun e => ⟨.file .parsing path e, rfl, by simpa [Complaint.quoted]⟩).bind fun f =>
      (log _ _ _).bind fun _ => pure f

theorem buildTree (f : FoldedStacks) : Raises known (buildTree f) :=
  ofChecked_bind fun tree _ => (forM (fun _ => log _ _ _) _).bind fun _ => pure tree

theorem openSink (output : Option String) (h : ∀ path ∈ output, known path) :
    Raises known (openSink output) := by
  cases output with
  | none => exact pure _
  | some path =>
    refine get.bind fun w => (orErrno .creating nofun (h path rfl) _).bind fun location => ?_
    exact (modify fun _ => _).bind fun _ => pure _

theorem write (sink : Sink) (text : String) : Raises known (sink.write text) := by
  refine get.bind fun w => ?_
  split
  · exact (modify _).bind fun _ => pure _
  · exact (modify _).bind fun _ => pure _

theorem writeDrawing (sink : Sink) (drawing : Except RenderError String) :
    Raises known (writeDrawing sink drawing) :=
  (orRenderError _).bind fun text => (write sink text).bind fun _ => orRenderError _

theorem draw (output : Option String) (h : ∀ path ∈ output, known path)
    (drawing : Checked (Except RenderError String)) (message : String) :
    Raises known (do
      let sink ← Command.openSink output
      Command.writeDrawing sink (← Command.ofChecked drawing)
      Command.say message) :=
  (openSink output h).bind fun sink => ofChecked_bind fun drawn _ =>
    (writeDrawing sink drawn).bind fun _ => say message

end Raises

/-! ## Section 3: Failures of the commands -/

theorem render_raises {options : RenderOptions} (hinput : ∀ path ∈ options.input, known path)
    (houtput : ∀ path ∈ options.output, known path) : Raises known (render options) := by
  unfold render
  dsimp only
  split
  case' h_1 path hpath => refine (Raises.readFolded (hinput path hpath)).bind fun folded => ?_
  case' h_2 =>
    refine Raises.get.bind fun w => ?_
    refine (Raises.parseFolded _ fun e => ⟨.stream .readingInput e, rfl, nofun⟩).bind
      fun folded => ?_
  -- wherever the profile came from, there may be a warning before it is drawn
  all_goals
    split
    · exact (Raises.log _ _ _).bind fun _ => (Raises.buildTree folded).bind fun tree =>
        .draw _ houtput _ _
    · exact (Raises.buildTree folded).bind fun tree => .draw _ houtput _ _

theorem diff_raises {options : DiffOptions} (hbefore : known options.before)
    (hafter : known options.after) (houtput : ∀ path ∈ options.output, known path) :
    Raises known (diff options) :=
  (Raises.readFolded hbefore).bind fun _ => (Raises.readFolded hafter).bind fun _ =>
    (Raises.buildTree _).bind fun _ => (Raises.buildTree _).bind fun _ => .draw _ houtput _ _

theorem writeFolded_raises (folded : FoldedStacks) {paths : ResultPaths}
    (h : ∀ path ∈ paths.texts, known path) : Raises known (writeFolded folded paths) := by
  have hfolded : ∀ path ∈ paths.folded, known path :=
    fun path hpath => h path (ResultPaths.mem_texts_iff.mpr (.inl hpath))
  unfold writeFolded
  split
  · refine (Raises.openSink _ hfolded).bind fun sink => (Raises.write sink _).bind fun written => ?_
    refine (Raises.orFoldError fun e he => ?_).bind fun _ => .forM_option fun path _ => .say _
    cases written with
    | ok _ => cases he
    | error e' =>
      cases he
      exact ⟨.stream .writingFolded e', rfl, nofun⟩
  · exact .pure ()

theorem writeGraph_raises (folded : FoldedStacks) {paths : ResultPaths}
    (h : ∀ path ∈ paths.texts, known path) (graph : GraphOptions) :
    Raises known (writeGraph folded paths graph) := by
  refine .forM_option fun path hpath => ?_
  have hknown : known path := h path (ResultPaths.mem_texts_iff.mpr (.inr (.inl hpath)))
  exact (Raises.buildTree folded).bind fun tree =>
    .draw (some path) (fun p hp => Option.mem_some.mp hp ▸ hknown) _ _

theorem writeSummary_raises (summary : SessionSummary) {paths : ResultPaths}
    (h : ∀ path ∈ paths.texts, known path) : Raises known (writeSummary summary paths) := by
  refine .forM_option fun path hpath => ?_
  have hknown : known path := h path (ResultPaths.mem_texts_iff.mpr (.inr (.inr hpath)))
  refine (Raises.openSink (some path) fun p hp => Option.mem_some.mp hp ▸ hknown).bind
    fun sink => ?_
  refine (Raises.write sink _).bind fun written => ?_
  exact (Raises.orIoError written fun e => ⟨.stream .writingSummary e, rfl, nofun⟩).bind
    fun _ => .say _

theorem writeResults_raises {σ : Type} (output : SessionOutput σ) {paths : ResultPaths}
    (h : ∀ path ∈ paths.texts, known path) (graph : GraphOptions) :
    Raises known (writeResults output paths graph) :=
  ((Raises.say _).bind fun _ => .say _).bind fun _ => (writeFolded_raises _ h).bind fun _ =>
    (writeGraph_raises _ h graph).bind fun _ => writeSummary_raises _ h

end Command

/-! ## Section 4: Failures of sessions -/

section

variable {known : String → Prop} {α β σ : Type}

/-- If the computation fails, its error quotes known texts. -/
def Profiling.Raises (known : String → Prop) (x : Profiling α) : Prop :=
  ∀ e, x.run = .ok (.error e) → ∀ text ∈ (Complaint.profiler e).quoted, known text

namespace Profiling.Raises

theorem pure (a : α) : Raises known (Pure.pure a : Profiling α) :=
  nofun

theorem throw {e : ProfilerError} (h : (Complaint.profiler e).quoted = []) :
    Raises known (throw e : Profiling α) := by
  intro e' herror
  cases herror
  rw [h]
  exact nofun

theorem bind {x : Profiling α} {f : α → Profiling β} (hx : Raises known x)
    (hf : ∀ a, Raises known (f a)) : Raises known (x >>= f) := by
  intro e h
  obtain ⟨r, hr, h⟩ := Checked.bind_eq_ok_iff.mp h
  cases r with
  | ok a => exact hf a e h
  | error e' =>
    cases h
    exact hx e hr

/-- A computation on words fails by a fault only. -/
theorem lift (c : Checked α) : Raises known (liftM c : Profiling α) := by
  cases c <;> exact nofun

theorem liftExcept {r : Except ProfilerError α}
    (h : ∀ e, r = .error e → ∀ text ∈ (Complaint.profiler e).quoted, known text) :
    Raises known (liftM r : Profiling α) := by
  intro e herror
  cases r with
  | ok a => cases herror
  | error e' =>
    cases herror
    exact h e rfl

theorem failIf (condition : Prop) [Decidable condition] {e : ProfilerError}
    (h : (Complaint.profiler e).quoted = []) :
    Raises known (Profiling.failIf condition e) := by
  unfold Profiling.failIf
  split
  · exact throw h
  · exact pure ()

theorem forM {γ : Type} {f : γ → Profiling Unit} (h : ∀ c, Raises known (f c)) (o : Option γ) :
    Raises known (o.forM f) := by
  cases o with
  | none => exact pure ()
  | some c => exact h c

end Profiling.Raises

open Profiling (Raises)

variable {pid : Pid} {config : SessionConfig} {source : NameSource σ} {state : σ} {elapsedMs : Nat}
  {e : ProfilerError}

/-- A memory map that cannot be read is named by its path. -/
theorem ProcessTable.quoted_of_memoryMap {table : ProcessTable}
    (h : table.memoryMap pid = .error e) : (Complaint.profiler e).quoted = [pid.mapsPath] := by
  unfold memoryMap at h
  split at h
  · cases h
    rfl
  · contradiction

/-- A ring is refused for its size only. -/
theorem Ring.quoted_of_zeroed {size start : Nat} (h : zeroed size start = .error e) :
    (Complaint.profiler e).quoted = [] := by
  unfold zeroed ofData at h
  split at h
  · cases h
  · cases h
    rfl

namespace Recording

theorem openRing_raises (limits : KernelLimits) (pid : Pid) (activity : Activity)
    (frequencyHz pages : Nat) :
    Raises known (openRing limits pid activity frequencyHz pages) := by
  have hsize : Raises known (ringSize limits pages) :=
    (Raises.lift _).bind fun size => (Raises.failIf _ rfl).bind fun _ => .pure _
  have hring : ∀ size, Raises known (liftM (Ring.zeroed size 0) : Profiling Ring) := by
    refine fun size => .liftExcept fun e h => ?_
    rw [Ring.quoted_of_zeroed h]
    exact nofun
  exact hsize.bind fun size => (Raises.failIf _ rfl).bind fun _ =>
    (Raises.forM (fun _ => .throw rfl) _).bind fun _ => (Raises.failIf _ rfl).bind fun _ =>
      (Raises.forM (fun _ => .throw rfl) _).bind fun _ => hring size

theorem takeTurns_raises (s : State) (turns : List Turn) : Raises known (takeTurns s turns) := by
  induction turns generalizing s with
  | nil => exact .pure _
  | cons turn turns ih =>
    have hwait : Raises known (liftM turn.wait : Profiling Bool) := by
      refine .liftExcept fun e h => ?_
      unfold Turn.wait at h
      split at h <;> cases h
      exact nofun
    refine hwait.bind fun readable => (Raises.lift _).bind fun ring => ?_
    refine (Raises.lift _).bind fun s => ?_
    split
    · exact .pure _
    · exact ih s

theorem ofRegions_raises (regions : List Region) (limits : KernelLimits) (activity : Activity) :
    Raises known (ofRegions regions limits pid activity config source state elapsedMs) := by
  have hcontrol : ∀ failed, Raises known (control failed) := .forM fun _ => .throw rfl
  refine (openRing_raises _ _ _ _ _).bind fun ring => (hcontrol _).bind fun _ => ?_
  refine (takeTurns_raises _ _).bind fun ⟨exited, s⟩ => (hcontrol _).bind fun _ => ?_
  exact (Raises.lift _).bind fun s => (Raises.lift _).bind fun resolver =>
    (Raises.lift _).bind fun output => .pure _

theorem record_raises (table : ProcessTable) (limits : KernelLimits) (activity : Activity)
    (hmap : known pid.mapsPath) :
    Raises known (record table limits pid activity config source state elapsedMs) := by
  have hregions : Raises known (liftM (regionsOf table pid) : Profiling (List Region)) := by
    refine .liftExcept fun e h => ?_
    unfold regionsOf at h
    split at h
    · cases h
      exact nofun
    · rw [ProcessTable.quoted_of_memoryMap h]
      simpa using hmap
  exact hregions.bind fun regions => ofRegions_raises regions limits activity

end Recording

theorem TimerSampler.quoted_of_start {timer timer' : TimerState} {buffer frequencyHz : Nat}
    {faults : StartFaults} (h : start timer buffer frequencyHz faults = (.error e, timer')) :
    (Complaint.profiler e).quoted = [] := by
  unfold start at h
  split at h
  · cases h
    rfl
  · dsimp only at h
    split at h
    · cases h
      rfl
    · split at h
      · cases h
        rfl
      · cases h

theorem SelfProfile.known_of_profile {table : ProcessTable} {timer timer' : TimerState}
    {faults : StartFaults} {interrupts : List Interrupt} (hmap : known pid.mapsPath)
    (h : profile table pid timer faults interrupts config source state elapsedMs =
      .ok (.error e, timer')) : ∀ text ∈ (Complaint.profiler e).quoted, known text := by
  unfold profile at h
  split at h
  · next e' hread =>
    cases h
    rw [ProcessTable.quoted_of_memoryMap hread]
    simpa using hmap
  · split at h
    · next e' timer₁ hstart =>
      cases h
      rw [TimerSampler.quoted_of_start hstart]
      exact nofun
    · -- a session that has started ends with an output
      obtain ⟨resolver, -, h⟩ := Checked.bind_eq_ok_iff.mp h
      obtain ⟨output, -, h⟩ := Checked.bind_eq_ok_iff.mp h
      cases h

end

namespace Command

variable {known : String → Prop}

theorem logMemoryMap_raises (pid : Pid) : Raises known (logMemoryMap pid) := by
  refine Raises.get.bind fun w => ?_
  split
  · exact .logAll _
  · exact .pure ()

theorem recordWith_raises {σ : Type} {pid : Pid} (hmap : known pid.mapsPath)
    (config : SessionConfig) (source : NameSource σ) (state : σ) (sourceLog : σ → List LogEvent) :
    Raises known (recordWith pid config source state sourceLog) := by
  refine Raises.get.bind fun w => (logMemoryMap_raises pid).bind fun _ => ?_
  refine Raises.join_bind fun result hresult => ?_
  refine (Raises.orReportedError _ fun e he => ?_).bind fun outcome => ?_
  · subst he
    exact Recording.record_raises _ _ _ hmap e hresult
  · refine (Raises.logAll _).bind fun _ => ?_
    have hlogs : ∀ exit lost events summary, Raises known (do
        logAll exit
        logAll lost
        logAll events
        logAll summary
        return outcome.output) := fun exit lost events summary =>
      (Raises.logAll _).bind fun _ => (Raises.logAll _).bind fun _ =>
        (Raises.logAll _).bind fun _ => (Raises.logAll _).bind fun _ => .pure _
    -- the user may have broken the recording off
    dsimp only
    split
    · exact (Raises.say _).bind fun _ => hlogs _ _ _ _
    · exact hlogs _ _ _ _

theorem selfProfile_raises {options : SelfProfileOptions} (hmaps : ∀ pid : Pid, known pid.mapsPath)
    (hpaths : ∀ path ∈ options.paths.texts, known path) : Raises known (selfProfile options) := by
  refine (Raises.say _).bind fun _ => Raises.get.bind fun w => ?_
  refine (logMemoryMap_raises w.ownPid).bind fun _ => ?_
  refine Raises.ofChecked_bind fun ⟨result, timer⟩ hresult => ?_
  refine (Raises.orReportedError _ fun e he => ?_).bind fun output => ?_
  · subst he
    exact SelfProfile.known_of_profile (hmaps _) hresult
  · exact (Raises.logAll _).bind fun _ => (Raises.logAll _).bind fun _ =>
      (Raises.logAll _).bind fun _ => writeResults_raises output hpaths options.graph

/-- All checks for a recording name the executable at most. -/
theorem run_raises (pid : Pid) {exe : String} (hexe : known exe) :
    Raises known (Preflight.run pid exe) := by
  have hchecks : ∀ w : World, Raises known (do
      (Preflight.paranoidNotices w.privileged w.paranoid).forM give
      Preflight.checkSymbols exe) := by
    intro w
    refine (Raises.forM (fun _ => .modify _) _).bind fun _ => Raises.get.bind fun w' => ?_
    refine (Raises.orErrno .readingBinary nofun hexe _).bind fun bytes => ?_
    exact .forM_option fun text _ => .say text
  refine Raises.get.bind fun w => ?_
  refine (Raises.ofExcept fun f hf => ?_).bind fun _ => ?_
  · refine ⟨.gone pid, ?_, nofun⟩
    unfold Preflight.checkExists at hf
    split at hf
    · cases hf
    · cases hf
      rfl
  · refine (Raises.ofExcept fun f hf => ?_).bind fun _ => hchecks w
    unfold Preflight.checkAccess at hf
    split at hf
    · cases hf
    · next e _ =>
      cases hf
      exact ⟨.inaccessible pid e, rfl, nofun⟩

end Command

/-! ## Section 5: The process to record -/

theorem ProcessTable.exists_entry_of_mem_candidates {table : ProcessTable} {own : Pid}
    {c : Candidate} (h : c ∈ table.candidates own) :
    ∃ entry ∈ table.entries, entry.exe = .ok c.target.exe ∧
      ∃ stat, entry.stat = .ok stat ∧ commandOfStat stat = some c.command := by
  obtain ⟨entry, hentry, hc⟩ := List.mem_filterMap.mp h
  refine ⟨entry, (List.mem_filter.mp hentry).1, ?_⟩
  unfold candidateOf? at hc
  split at hc
  · next exe stat hexe hstat =>
    obtain ⟨command, hcommand, rfl⟩ := Option.map_eq_some_iff.mp hc
    exact ⟨hexe, stat, hstat, hcommand⟩
  · contradiction

/-- A search for a process finds a candidate, or quotes the name and commands of candidates. -/
theorem Target.find_cases (name : String) (candidates : List Candidate) :
    (∃ c ∈ candidates, find name candidates = .ok c.target) ∨
      find name candidates = .error (.notFound name) ∨
      ∃ best, (∀ c ∈ best, c ∈ candidates) ∧
        find name candidates = .error (.ambiguous name best) := by
  unfold find
  dsimp only
  generalize hbest : (if (candidates.filter fun c =>
      decide (c.rank ((Path.fileName? name).getD name) = some .exact)).isEmpty = true then _
    else _) = best
  have hsub : ∀ c ∈ best, c ∈ candidates := by
    intro c hc
    rw [← hbest] at hc
    split at hc
    · exact (List.mem_filter.mp hc).1
    · exact (List.mem_filter.mp hc).1
  cases best with
  | nil => exact .inr (.inl rfl)
  | cons c rest =>
    cases rest with
    | nil => exact .inl ⟨c, hsub c List.mem_cons_self, rfl⟩
    | cons c' rest => exact .inr (.inr ⟨c :: c' :: rest, hsub, rfl⟩)

/-- A process that is given by its number is shown in the table, or no text is quoted. -/
theorem ProcessTable.target_cases (table : ProcessTable) (pid : Pid) :
    (∃ entry ∈ table.entries, ∃ exe, entry.exe = .ok exe ∧ table.target pid = .ok { pid, exe }) ∨
      ∃ e, (Complaint.profiler e).quoted = [] ∧ table.target pid = .error e := by
  unfold target readFile
  cases hentry : table.find? pid with
  | none => exact .inr ⟨.processNotFound pid, rfl, rfl⟩
  | some entry =>
    dsimp only
    split
    · next exe hexe => exact .inl ⟨entry, List.mem_of_find?_eq_some hentry, exe, hexe, rfl⟩
    · exact .inr ⟨.processNotFound pid, rfl, rfl⟩
    · next e _ _ => exact .inr ⟨.io e, rfl, rfl⟩

namespace Command

/-- What is known of the outcome of finding the process to record. -/
def TargetKnown (invocation : Invocation) (w : World) : Except Failure Target → Prop
  | .ok found => FromOutside invocation w found.exe
  | .error f => Raised (FromOutside invocation w) f

theorem targetKnown_of_name {options : RecordOptions} {w : World} {name : String}
    (hname : name ∈ options.process) :
    TargetKnown (.record options) w
      ((w.processes.findByName w.ownPid name).mapError FindError.failure) := by
  have hargument : FromOutside (.record options) w name :=
    .argument (List.mem_append_left _ (Option.mem_toList.mpr hname))
  unfold ProcessTable.findByName
  split
  · next e _ => exact ⟨.unfound (.unlisted e), rfl, nofun⟩
  obtain ⟨c, hc, hfound⟩ | hfound | ⟨best, hbest, hfound⟩ :=
    Target.find_cases name (w.processes.candidates w.ownPid)
  · obtain ⟨entry, hentry, hexe, -⟩ := ProcessTable.exists_entry_of_mem_candidates hc
    rw [hfound]
    exact .executable hentry hexe
  · rw [hfound]
    exact ⟨.unfound (.notFound name), rfl, by simpa [Complaint.quoted] using hargument⟩
  · rw [hfound]
    refine ⟨.unfound (.ambiguous name best), rfl, fun text htext => ?_⟩
    obtain rfl | hcommand := List.mem_cons.mp htext
    · exact hargument
    · obtain ⟨c, hc, rfl⟩ := List.mem_map.mp hcommand
      obtain ⟨entry, hentry, -, stat, hstat, hname⟩ :=
        ProcessTable.exists_entry_of_mem_candidates (hbest c hc)
      exact .command hentry hstat hname

theorem targetKnown_of_pid (invocation : Invocation) (w : World) (pid : Pid) :
    TargetKnown invocation w ((w.processes.target pid).mapError fun e =>
      { cause := .profiler e }) := by
  obtain ⟨entry, hentry, exe, hexe, hfound⟩ | ⟨e, hquoted, hfound⟩ :=
    ProcessTable.target_cases w.processes pid
  · rw [hfound]
    exact .executable hentry hexe
  · rw [hfound]
    refine ⟨.profiler e, rfl, ?_⟩
    rw [hquoted]
    exact nofun

theorem target_ends (options : RecordOptions) (w : World) :
    (target options).Ends w fun r _ => TargetKnown (.record options) w r := by
  refine .bind fun r w₁ hget => ?_
  cases hget
  dsimp only
  split
  · next name hname => exact .ofExcept (targetKnown_of_name hname)
  · next pid _ _ => exact .ofExcept (targetKnown_of_pid (.record options) w pid)
  · exact .throw ⟨.noTarget, rfl, nofun⟩

theorem record_raises (options : RecordOptions) (w : World) :
    (record options).Ends w fun r _ =>
      ∀ f, r = .error f → Raised (FromOutside (.record options) w) f := by
  refine .bind ((target_ends options w).mono fun r w₁ h => ?_)
  cases r with
  | error e =>
    rintro f ⟨⟩
    exact h
  | ok found =>
    have hpaths : ∀ path ∈ options.paths.texts, FromOutside (.record options) w path :=
      fun path hpath => .argument (List.mem_append_right _ hpath)
    refine ((run_raises found.pid h).bind fun _ => ?_) w₁
    refine (Raises.say _).bind fun _ => (Raises.say _).bind fun _ => (Raises.say _).bind fun _ =>
      (Raises.say _).bind fun _ => Raises.get.bind fun w₂ => ?_
    split
    · exact (recordWith_raises (.memoryMap _) _ _ _ _).bind fun output =>
        writeResults_raises output hpaths _
    · exact (recordWith_raises (.memoryMap _) _ _ _ _).bind fun output =>
        writeResults_raises output hpaths _

/-- **Every failure of a command** is of a known kind, and quotes only texts from outside. -/
theorem ofInvocation_raises (invocation : Invocation) (w : World) :
    (ofInvocation invocation).Ends w fun r _ =>
      ∀ f, r = .error f → Raised (FromOutside invocation w) f := by
  cases invocation with
  | record options => exact record_raises options w
  | selfProfile options =>
    exact selfProfile_raises (fun pid => .memoryMap pid) (fun path hpath => .argument hpath) w
  | render options =>
    refine render_raises (fun path hpath => .argument ?_) (fun path hpath => .argument ?_) w
    · exact List.mem_append_left _ (Option.mem_toList.mpr hpath)
    · exact List.mem_append_right _ (Option.mem_toList.mpr hpath)
  | diff options =>
    refine diff_raises (.argument ?_) (.argument ?_) (fun path hpath => .argument ?_) w
    · exact List.mem_append_left _ List.mem_cons_self
    · exact List.mem_append_left _ (List.mem_cons_of_mem _ List.mem_cons_self)
    · exact List.mem_append_right _ (Option.mem_toList.mpr hpath)

end Command

/-! ## Section 6: Exit codes of runs -/

open ExitCode

/--
**When the exit code of a run follows the cause.** A run succeeds, with the code of success, or it
fails. Then the failure is of a known kind and quotes only names and paths of the invocation, and
executables, commands and memory maps of processes; the exit code is that of the failure's kind and
of the quoted texts, and that of its kind alone if these say nothing. It is the code that the cause
asks for exactly if

- in case of a lack of permission, the failure itself shows it or a quoted text says the phrase;
- in any other case, the failure is not about a memory map that cannot be read before a recording,
  and no quoted text says a phrase.
-/
theorem exit_code_follows_cause_iff {invocation : Invocation} {w w' : World} {code : Nat}
    (hrun : runInvocation invocation w = .ok (code, w')) :
    code = success ∧ (Command.ofInvocation invocation).runIn w = .ok (.ok (), w') ∨
      ∃ (c : Complaint) (w₁ : World),
        (Command.ofInvocation invocation).runIn w = .ok (.error c.failure, w₁) ∧
        w' = { w₁ with notices := .line ("error: " ++ c.failure.text) :: w₁.notices } ∧
        (∀ text ∈ c.quoted, FromOutside invocation w text) ∧
        code = c.code ∧
        ((∀ text ∈ c.quoted, ∀ phrase, ¬Says text phrase) → code = c.ownCode) ∧
        (code = ofCause c.failure.cause ↔
          if c.failure.cause.IsPermission then
            c.ownCode = noPermission ∨ ∃ text ∈ c.quoted, Says text .permissionDenied
          else
            (∀ pid e, c ≠ .inaccessible pid e) ∧
              ∀ text ∈ c.quoted, ∀ phrase, ¬Says text phrase) := by
  obtain ⟨⟨r, w₁⟩, hcommand, hcode⟩ := Checked.bind_eq_ok_iff.mp hrun
  cases r with
  | ok a =>
    cases hcode
    exact .inl ⟨rfl, hcommand⟩
  | error f =>
    cases hcode
    obtain ⟨c, rfl, hquoted⟩ := Command.ofInvocation_raises invocation w _ _ hcommand f rfl
    rw [Complaint.ofFailure_failure]
    exact .inr ⟨c, w₁, hcommand, rfl, hquoted, rfl, Complaint.code_eq_ownCode,
      c.code_eq_ofCause_iff⟩

private def misnamed : Invocation :=
  .render { input := some "permission denied" }

private def misnamedFailure : Complaint :=
  .file .opening "permission denied" (.system .noSuchFile)

/-- A profile that does not exist has a name that says a phrase. The run ends as if permission had
been denied. -/
theorem exit_code_follows_cause_iff_misnamed :
    ∃ (c : Complaint) (w₁ w' : World), runInvocation misnamed {} = .ok (noPermission, w') ∧
      (Command.ofInvocation misnamed).runIn {} = .ok (.error c.failure, w₁) ∧
      c.failure.cause = .io (.system .noSuchFile) ∧
      ofCause c.failure.cause = ExitCode.failure ∧
      ¬((∀ pid e, c ≠ .inaccessible pid e) ∧ ∀ text ∈ c.quoted, ∀ phrase, ¬Says text phrase) := by
  have hcommand : (Command.ofInvocation misnamed).runIn {} =
      .ok (.error misnamedFailure.failure, {}) := rfl
  have hdenied : Says "permission denied" .permissionDenied := by
    rw [Says, String.toList_ofList]
    decide
  have hcode : ofFailure misnamedFailure.failure = noPermission := by
    rw [Complaint.ofFailure_failure]
    exact ofTexts_eq_noPermission_iff.mpr ⟨_, List.mem_singleton_self _, hdenied⟩
  obtain ⟨w', hrun⟩ : ∃ w', runInvocation misnamed {} = .ok (noPermission, w') := by
    rw [← hcode]
    exact ⟨_, rfl⟩
  obtain ⟨hsuccess, -⟩ | ⟨c, w₁, hfailed, -, -, -, -, hiff⟩ := exit_code_follows_cause_iff hrun
  · contradiction
  · have hfailure : misnamedFailure.failure = c.failure := by
      rw [hcommand] at hfailed
      exact Except.error.inj (Prod.mk.inj (Except.ok.inj hfailed)).1
    have hcause : c.failure.cause = .io (.system .noSuchFile) := by
      rw [← hfailure]
      rfl
    have hpermission : ¬c.failure.cause.IsPermission := by
      rw [hcause]
      decide
    have hasked : ofCause c.failure.cause = ExitCode.failure := by
      rw [hcause]
      rfl
    rw [if_neg hpermission, hasked] at hiff
    exact ⟨c, w₁, w', hrun, hfailed, hcause, hasked, mt hiff.mpr (by decide)⟩

end StackProfiler
