import StackProfiler.Proofs.Command.Wording

/-!
# Failures and their exit codes

The failures of commands by their kinds, each with the texts that it quotes and the system error in
its outermost message. The exit code is a function of these; it is compared with the code that the
cause asks for.

- **failures**: `Complaint`, with `Complaint.failure` and `Complaint.quoted`;
- **wording**: `ExitCode.quotes_outermost`, what an outermost message says;
- **codes**: `Complaint.code`, the exit code by the kind and the quoted texts, and
  `Complaint.code_eq_ofCause_iff`, when it is the code that the cause asks for.
-/

namespace StackProfiler

/-! ## Section 1: Failures -/

/-- What a command does with a file. -/
inductive FileUse where
  | opening
  | parsing
  | creating
  | readingBinary
deriving DecidableEq, Repr

namespace FileUse

def words : FileUse → String
  | opening => "Failed to open "
  | parsing => "Failed to parse "
  | creating => "Failed to create "
  | readingBinary => "Failed to read binary: "

/-- What a failure is blamed on; a profile is read as folded stacks. -/
def cause (use : FileUse) (e : IoError) : Cause :=
  if use = parsing then .fold (.read e) else .io e

end FileUse

/-- What is done with a profile or its summary without a path being named. -/
inductive StreamUse where
  | readingInput
  | writingFolded
  | writingSummary
deriving DecidableEq, Repr

namespace StreamUse

def words : StreamUse → String
  | readingInput => "Failed to read folded stacks from stdin"
  | writingFolded => "Failed to write folded stacks"
  | writingSummary => "Failed to write summary"

/-- What a failure is blamed on. -/
def cause : StreamUse → IoError → Cause
  | readingInput, e => .fold (.read e)
  | writingFolded, e => .fold (.write e)
  | writingSummary, e => .io e

end StreamUse

/-- The failures of commands. -/
inductive Complaint where
  | noTarget
  /-- A name does not pick a process. -/
  | unfound (e : FindError)
  | file (use : FileUse) (path : String) (e : IoError)
  | stream (use : StreamUse) (e : IoError)
  /-- A process does not exist any more. -/
  | gone (pid : Pid)
  /-- The memory map of a process cannot be read before the recording. -/
  | inaccessible (pid : Pid) (e : IoError)
  /-- The task that records broke down. -/
  | brokenTask (text : String)
  | profiler (e : ProfilerError)
  | render (e : RenderError)
deriving DecidableEq, Repr

/-- The system error that a cause comes down to. -/
def Cause.systemError? : Cause → Option IoError
  | .profiler (.io e) => some e
  | .profiler e => e.source?
  | .render (.io e) => some e
  | .fold e => some e.source
  | .io e => some e
  | _ => none

/-- The system refused for lack of permission, by either of its two errors. -/
def Cause.IsPermission (c : Cause) : Prop :=
  ∃ e, c.systemError? = some e ∧ e.isPermission = true

instance (c : Cause) : Decidable c.IsPermission :=
  decidable_of_iff (c.systemError?.any IoError.isPermission = true) (by
    rw [Option.any_eq_true]
    rfl)

namespace ExitCode

/-- The code that a cause asks for. -/
def ofCause (c : Cause) : Nat :=
  if c = .render .noSamples then noSamples
  else if c.IsPermission then noPermission
  else if c = .told Command.missingTarget then usage
  else failure

end ExitCode

namespace Complaint

open ExitCode

def failure : Complaint → Failure
  | noTarget => { cause := .told Command.missingTarget }
  | unfound e => e.failure
  | file use path e => { contexts := [use.words ++ path], cause := use.cause e }
  | stream use e => { contexts := [use.words], cause := use.cause e }
  | gone pid =>
    { contexts := ["Is the process still running? Check with: ps -p " ++ toString pid.number]
      cause := .profiler (.processNotFound pid) }
  | inaccessible pid e => { contexts := [Preflight.accessAdvice pid], cause := .io e }
  | brokenTask text => { contexts := ["Recording task failed"], cause := .task text }
  | profiler e => { cause := .profiler e }
  | render e => { cause := .render e }

/-- The names and paths in the outermost message. -/
def quoted : Complaint → List String
  | unfound (.notFound name) => [name]
  | unfound (.ambiguous name candidates) => name :: candidates.map (·.command)
  | file _ path _ => [path]
  | profiler (.memoryMapsReadFailed path _) => [path]
  | _ => []

/-- The system error in the outermost message. -/
def shown? : Complaint → Option IoError
  | profiler (.memoryMapsReadFailed _ _) => none
  | profiler (.io e) => some e
  | profiler e => e.source?
  | render (.io e) => some e
  | _ => none

/-- The code that a failure has if it quotes nothing. -/
def ownCode : Complaint → Nat
  | noTarget => usage
  -- the advice that is given names a lack of permission among the usual reasons
  | inaccessible _ _ => noPermission
  | render .noSamples => noSamples
  | profiler (.perfOpenFailed _ e) => if e.isPermission then noPermission else ExitCode.failure
  | c => if c.shown? = some (.system .permissionDenied) then noPermission else ExitCode.failure

/-- The code of a failure. -/
def code (c : Complaint) : Nat :=
  if c.ownCode = ExitCode.failure then ofTexts c.quoted else c.ownCode

end Complaint

/-! ## Section 2: The wording of failures -/

namespace ExitCode

theorem quotes_listing (c : Candidate) : Quotes c.listing [c.command] := by
  have hgap : Plain "  " := plain_ofList (by decide)
  have hindent : LacksLetter "  " := by decide
  have hspaces : LacksLetter (String.ofList
      (List.replicate (7 - (toString c.target.pid.number).length) ' ')) := by
    rw [LacksLetter, String.toList_ofList, List.map_replicate]
    intro hmem
    exact absurd (List.eq_of_mem_replicate hmem) (by decide)
  have hnumber : Quotes ("  " ++ String.ofList
      (List.replicate (7 - (toString c.target.pid.number).length) ' ')
      ++ toString c.target.pid.number) [] :=
    ((hindent.append hspaces).append (lacksLetter_toString_int c.target.pid.number)).quotes
  exact hnumber.append_append hgap (quotes_singleton c.command)

theorem quotes_findError (e : FindError) : Quotes e.message (Complaint.unfound e).quoted := by
  have hbracket : Plain ")" := plain_ofList (by decide)
  cases e with
  | unlisted e =>
    have hplain : Plain "Failed to list /proc" := plain_ofList (by decide)
    exact hplain.quotes
  | notFound name =>
    have hstart : Plain "No running process is named like '" := plain_ofList (by decide)
    have hmiddle : Plain "' (see: pgrep -a " := plain_ofList (by decide)
    have hquotes : Quotes (FindError.message (.notFound name)) ([name] ++ [name]) :=
      ((hstart.quotes_append (quotes_singleton name)).append_append hmiddle
        (quotes_singleton name)).append_plain hbracket
    intro phrase
    rw [hquotes phrase]
    simp [Complaint.quoted]
  | ambiguous name candidates =>
    have hstart : Plain "'" := plain_ofList (by decide)
    have hmatches : Plain "' matches " := plain_ofList (by decide)
    have hprocesses : Plain " processes:\n" := plain_ofList (by decide)
    have hend : Plain "\n\nPick one with: pyrograph record --pid <PID>" :=
      plain_ofList (by decide)
    -- the name, how many processes there are, and a line for each of them
    exact (((hstart.quotes_append (quotes_singleton name)).append_append hmatches
      (lacksLetter_toString candidates.length).quotes).append_append hprocesses
      (quotes_intercalate quotes_listing candidates)).append_plain hend

theorem quotes_pid (pid : Pid) : Quotes pid.text [] := by
  have hstart : Plain "PID:" := plain_ofList (by decide)
  exact hstart.quotes_append (lacksLetter_toString_int pid.number).quotes

theorem quotes_profilerError (e : ProfilerError) :
    Quotes e.message ((Complaint.profiler e).quoted ++
      ((Complaint.profiler e).shown?.map IoError.message).toList) := by
  cases e with
  | processNotFound pid =>
    have hstart : Plain "Process " := plain_ofList (by decide)
    have hend : Plain " not found" := plain_ofList (by decide)
    exact (hstart.quotes_append (quotes_pid pid)).append_plain hend
  | perfOpenFailed pid e =>
    have hstart : Plain "perf_event_open failed for " := plain_ofList (by decide)
    have hcolon : Plain ": " := plain_ofList (by decide)
    exact (hstart.quotes_append (quotes_pid pid)).append_append hcolon (quotes_singleton e.message)
  | mmapFailed e =>
    have hstart : Plain "Failed to map perf ring buffer: " := plain_ofList (by decide)
    exact hstart.quotes_append (quotes_singleton e.message)
  | invalidRingSize size =>
    have hstart : Plain "Ring buffer data size " := plain_ofList (by decide)
    have hend : Plain " is not a power of two" := plain_ofList (by decide)
    exact (hstart.quotes_append (lacksLetter_toString size).quotes).append_plain hend
  | sessionActive =>
    have hplain : Plain "A timer-driven sampling session is already active in this process" :=
      plain_ofList (by decide)
    exact hplain.quotes
  | timerInstallFailed e =>
    have hstart : Plain "Failed to install sampling timer: " := plain_ofList (by decide)
    exact hstart.quotes_append (quotes_singleton e.message)
  | memoryMapsReadFailed path e =>
    have hstart : Plain "Failed to read " := plain_ofList (by decide)
    exact hstart.quotes_append (quotes_singleton path)
  | io e => exact quotes_singleton e.message

theorem quotes_renderError (e : RenderError) :
    Quotes e.message ((Complaint.render e).shown?.map IoError.message).toList := by
  cases e with
  | noSamples =>
    have hplain : Plain "No samples to render (the profile is empty)" := plain_ofList (by decide)
    exact hplain.quotes
  | invalidWidth width =>
    have hstart : Plain "Invalid canvas width " := plain_ofList (by decide)
    have hend : Plain ": must be larger than the side margins" := plain_ofList (by decide)
    exact (hstart.quotes_append (lacksLetter_toString width).quotes).append_plain hend
  | io e => exact quotes_singleton e.message

/-- The outermost message is the same whether the processes cannot be listed or the name does not
pick one of them. -/
theorem outermost_findError (e : FindError) : e.failure.outermost = e.message := by
  cases e <;> rfl

theorem FileUse.plain_words (use : FileUse) : Plain use.words := by
  cases use <;> exact plain_ofList (by decide)

theorem StreamUse.plain_words (use : StreamUse) : Plain use.words := by
  cases use <;> exact plain_ofList (by decide)

/-- What the outermost message of a failure says, it says in the texts and the system error in it;
apart from the two failures that have a phrase in their fixed wording. -/
theorem quotes_outermost {c : Complaint} (htarget : c ≠ .noTarget)
    (hadvice : ∀ pid e, c ≠ .inaccessible pid e) :
    Quotes c.failure.outermost (c.quoted ++ (c.shown?.map IoError.message).toList) := by
  cases c with
  | noTarget => contradiction
  | inaccessible pid e => exact absurd rfl (hadvice pid e)
  | unfound e =>
    show Quotes e.failure.outermost ((Complaint.unfound e).quoted ++ [])
    rw [outermost_findError, List.append_nil]
    exact quotes_findError e
  | file use path e => exact (FileUse.plain_words use).quotes_append (quotes_singleton path)
  | stream use e => exact (StreamUse.plain_words use).quotes
  | brokenTask text =>
    have hplain : Plain "Recording task failed" := plain_ofList (by decide)
    exact hplain.quotes
  | gone pid =>
    have hstart : Plain "Is the process still running? Check with: ps -p " :=
      plain_ofList (by decide)
    exact hstart.quotes_append (lacksLetter_toString_int pid.number).quotes
  | profiler e => exact quotes_profilerError e
  | render e => exact quotes_renderError e

/-- The advice about a memory map names a lack of permission, whatever the reason is. -/
theorem says_accessAdvice (pid : Pid) : Says (Preflight.accessAdvice pid) .permissionDenied := by
  have hend : Says ")\n- Permission denied (run with sudo)\n- /proc is not mounted"
      .permissionDenied := by
    rw [Says, String.toList_ofList]
    decide
  exact says_append_right hend _

theorem ofText_accessAdvice (pid : Pid) : ofText (Preflight.accessAdvice pid) = noPermission := by
  rw [ofText_eq_ofTexts (quotes_singleton _), ofTexts_eq_noPermission_iff]
  exact ⟨_, List.mem_singleton_self _, says_accessAdvice pid⟩

theorem ofText_missingTarget : ofText Command.missingTarget = usage := by
  have hname : Plain "pyrograph record my-app        Find the PID by name\n  " :=
    plain_ofList (by decide)
  have hpid : Plain "pyrograph record --pid 1234    Explicit PID\n\n" := plain_ofList (by decide)
  have hhelp : Plain "Run 'pyrograph record --help' for more options" := plain_ofList (by decide)
  -- only the first line can say anything
  have hquotes : Quotes Command.missingTarget
      ["Missing required argument: PROCESS or --pid\n\nUsage:\n  "] :=
    (((quotes_singleton _).append_plain hname).append_plain hpid).append_plain hhelp
  rw [ofText_eq_ofTexts hquotes, ofTexts, if_neg, if_pos]
  · refine ⟨_, List.mem_singleton_self _, ?_⟩
    rw [Says, String.toList_ofList]
    decide
  · rintro ⟨text, hmem, hphrase⟩
    rw [List.mem_singleton.mp hmem, Says, String.toList_ofList] at hphrase
    revert hphrase
    decide

end ExitCode

/-! ## Section 3: Exit codes of failures -/

namespace Complaint

open ExitCode

theorem quoted_eq_nil_of_shown? {c : Complaint} {e : IoError} (h : c.shown? = some e) :
    c.quoted = [] := by
  cases c with
  | profiler e' =>
    cases e'
    case memoryMapsReadFailed path e => contradiction
    all_goals rfl
  | render e' => rfl
  | _ => contradiction

/-- The failure has no code of its own but that of the system error in its message. -/
def IsWorded (c : Complaint) : Prop :=
  c.ownCode = if c.shown? = some (.system .permissionDenied) then noPermission else ExitCode.failure

/-- The system error and the quoted texts do not meet in a message. -/
theorem code_eq_ofTexts {c : Complaint} (h : c.IsWorded) :
    c.code = ofTexts (c.quoted ++ (c.shown?.map IoError.message).toList) := by
  rw [code, h]
  cases hshown : c.shown? with
  | none => simp
  | some e =>
    rw [quoted_eq_nil_of_shown? hshown, Option.map_some, Option.toList_some, List.nil_append,
      ofTexts_message]
    by_cases he : e = .system .permissionDenied
    · rw [if_pos he, if_pos (congrArg some he)]
      rfl
    · rw [if_neg he, if_neg (mt Option.some.inj he)]
      rfl

theorem isWorded_of_not_isPermission {pid : Pid} {e : IoError} (h : e.isPermission = false) :
    (profiler (.perfOpenFailed pid e)).IsWorded := by
  have hdenied : (profiler (.perfOpenFailed pid e)).shown? ≠ some (.system .permissionDenied) := by
    intro hshown
    cases Option.some.inj hshown
    contradiction
  rw [IsWorded, if_neg hdenied, ownCode, h]
  rfl

/-- **The exit code of a failure**, by its kind and by what the texts that it quotes say. -/
theorem ofFailure_failure (c : Complaint) : ofFailure c.failure = c.code := by
  -- most failures are judged by their outermost message only
  have hworded : ofFailure c.failure = ofText c.failure.outermost → c ≠ .noTarget →
      (∀ pid e, c ≠ .inaccessible pid e) → c.IsWorded → ofFailure c.failure = c.code := by
    intro htext htarget hadvice hc
    rw [htext, code_eq_ofTexts hc, ofText_eq_ofTexts (quotes_outermost htarget hadvice)]
  cases c with
  | noTarget => exact ofText_missingTarget
  | inaccessible pid e => exact ofText_accessAdvice pid
  | unfound e => cases e <;> exact hworded rfl nofun nofun rfl
  | file use path e => cases use <;> exact hworded rfl nofun nofun rfl
  | stream use e => cases use <;> exact hworded rfl nofun nofun rfl
  | brokenTask text => exact hworded rfl nofun nofun rfl
  | gone pid => exact hworded rfl nofun nofun rfl
  | profiler e =>
    cases e
    case perfOpenFailed pid e =>
      cases hpermission : e.isPermission with
      | true =>
        have hown : (profiler (.perfOpenFailed pid e)).ownCode = noPermission :=
          if_pos hpermission
        rw [code, hown]
        exact if_pos hpermission
      | false =>
        refine hworded ?_ nofun nofun (isWorded_of_not_isPermission hpermission)
        exact if_neg (ne_true_of_eq_false hpermission)
    all_goals exact hworded rfl nofun nofun rfl
  | render e =>
    cases e
    case noSamples => rfl
    all_goals exact hworded rfl nofun nofun rfl

/-! ## Section 4: Exit codes and causes -/

theorem systemError?_of_shown? {c : Complaint} {e : IoError} (h : c.shown? = some e) :
    c.failure.cause.systemError? = some e := by
  cases c with
  | profiler e' =>
    cases e'
    case memoryMapsReadFailed path e => contradiction
    all_goals exact h
  | render e' =>
    cases e' <;> exact h
  | _ => contradiction

theorem head?_append {text : String} {first : Char} (h : text.toList.head? = some first)
    (after : String) : (text ++ after).toList.head? = some first := by
  rw [String.toList_append, List.head?_append, h]
  rfl

/-- No message about a name is that of a missing name. -/
theorem cause_ne_missingTarget (e : FindError) :
    e.failure.cause ≠ .told Command.missingTarget := by
  have hmissing : Command.missingTarget.toList.head? = some 'M' := by
    have hstart : "Missing required argument: PROCESS or --pid\n\nUsage:\n  ".toList.head? =
        some 'M' := by rw [String.toList_ofList]; rfl
    exact head?_append (head?_append (head?_append hstart _) _) _
  have hname : ∀ {first : Char} {message : String}, first ≠ 'M' →
      message.toList.head? = some first → Cause.told message ≠ .told Command.missingTarget := by
    intro first message hfirst hhead h
    rw [Cause.told.inj h, hmissing] at hhead
    exact hfirst (Option.some.inj hhead).symm
  cases e with
  | unlisted e => exact nofun
  | notFound name =>
    have hstart : "No running process is named like '".toList.head? = some 'N' := by
      rw [String.toList_ofList]
      rfl
    exact hname (by decide)
      (head?_append (head?_append (head?_append (head?_append hstart _) _) _) _)
  | ambiguous name candidates =>
    have hstart : "'".toList.head? = some '\'' := by rw [String.toList_ofList]; rfl
    exact hname (by decide) (head?_append (head?_append (head?_append (head?_append (head?_append
      (head?_append hstart _) _) _) _) _) _)

theorem ofCause_eq_failure {c : Cause} (hsamples : c ≠ .render .noSamples)
    (hpermission : ¬c.IsPermission) (htarget : c ≠ .told Command.missingTarget) :
    ofCause c = ExitCode.failure := by
  rw [ofCause, if_neg hsamples, if_neg hpermission, if_neg htarget]

theorem ofCause_eq_noPermission {c : Cause} (h : c.IsPermission) : ofCause c = noPermission := by
  have hsamples : c ≠ .render .noSamples := by
    rintro rfl
    obtain ⟨e, he, -⟩ := h
    contradiction
  rw [ofCause, if_neg hsamples, if_pos h]

/-- Without a lack of permission, and but for the advice, the own code of a failure is right. -/
theorem ownCode_eq_ofCause {c : Complaint} (hcause : ¬c.failure.cause.IsPermission)
    (hadvice : ∀ pid e, c ≠ .inaccessible pid e) : c.ownCode = ofCause c.failure.cause := by
  have hshown : c.shown? ≠ some (.system .permissionDenied) :=
    fun h => hcause ⟨_, systemError?_of_shown? h, rfl⟩
  have hworded : c.IsWorded → c.failure.cause ≠ .render .noSamples →
      c.failure.cause ≠ .told Command.missingTarget → c.ownCode = ofCause c.failure.cause := by
    intro hown hsamples htarget
    rw [hown, if_neg hshown, ofCause_eq_failure hsamples hcause htarget]
  cases c with
  | noTarget =>
    have hpermission : ¬(Cause.told Command.missingTarget).IsPermission := hcause
    show usage = ofCause (.told Command.missingTarget)
    rw [ofCause, if_neg nofun, if_neg hpermission, if_pos rfl]
  | inaccessible pid e => exact absurd rfl (hadvice pid e)
  | unfound e =>
    have hsamples : e.failure.cause ≠ .render .noSamples := by cases e <;> exact nofun
    exact hworded rfl hsamples (cause_ne_missingTarget e)
  | file use path e => cases use <;> exact hworded rfl nofun nofun
  | stream use e => cases use <;> exact hworded rfl nofun nofun
  | brokenTask text => exact hworded rfl nofun nofun
  | gone pid => exact hworded rfl nofun nofun
  | profiler e =>
    cases e
    case perfOpenFailed pid e =>
      have hpermission : e.isPermission = false :=
        Bool.eq_false_iff.mpr fun h => hcause ⟨e, rfl, h⟩
      exact hworded (isWorded_of_not_isPermission hpermission) nofun nofun
    all_goals exact hworded rfl nofun nofun
  | render e =>
    cases e
    case noSamples => rfl
    all_goals exact hworded rfl nofun nofun

theorem quoted_eq_nil_of_ownCode {c : Complaint} (h : c.ownCode ≠ ExitCode.failure) :
    c.quoted = [] := by
  cases c with
  | unfound e => exact absurd rfl h
  | file use path e => exact absurd rfl h
  | profiler e =>
    cases e
    case memoryMapsReadFailed path e => exact absurd rfl h
    all_goals rfl
  | _ => rfl

/-- Texts that say nothing do not change the exit code. -/
theorem code_eq_ownCode {c : Complaint} (h : ∀ text ∈ c.quoted, ∀ phrase, ¬Says text phrase) :
    c.code = c.ownCode := by
  unfold code
  split
  · next hown => rw [ofTexts_eq_failure_iff.mpr h, hown]
  · rfl

/-- **When the exit code follows the cause.** A lack of permission is seen in the failure itself or
in a text that it quotes. If the cause is another one, the failure is not about a memory map that
cannot be read, and quotes no text that says a phrase. -/
theorem code_eq_ofCause_iff (c : Complaint) :
    c.code = ofCause c.failure.cause ↔
      if c.failure.cause.IsPermission then
        c.ownCode = noPermission ∨ ∃ text ∈ c.quoted, Says text .permissionDenied
      else
        (∀ pid e, c ≠ .inaccessible pid e) ∧ ∀ text ∈ c.quoted, ∀ phrase, ¬Says text phrase := by
  have htexts : c.ownCode = ExitCode.failure → c.code = ofTexts c.quoted := fun h => if_pos h
  have hown : c.ownCode ≠ ExitCode.failure → c.code = c.ownCode := fun h => if_neg h
  split
  · next hcause =>
    rw [ofCause_eq_noPermission hcause]
    by_cases h : c.ownCode = ExitCode.failure
    · rw [htexts h, ofTexts_eq_noPermission_iff, h]
      exact (or_iff_right (by decide)).symm
    · rw [hown h, quoted_eq_nil_of_ownCode h]
      simp
  · next hcause =>
    by_cases hadvice : ∃ pid e, c = .inaccessible pid e
    · -- the advice is taken for the cause
      obtain ⟨pid, e, rfl⟩ := hadvice
      refine iff_of_false ?_ fun h => h.1 pid e rfl
      have hfailure : ofCause (.io e) = ExitCode.failure := ofCause_eq_failure nofun hcause nofun
      show noPermission ≠ ofCause (.io e)
      rw [hfailure]
      decide
    · -- the own code is right, so only a quoted text can be in the way
      have hnone : ∀ pid e, c ≠ .inaccessible pid e := fun pid e h => hadvice ⟨pid, e, h⟩
      rw [← ownCode_eq_ofCause hcause hnone, and_iff_right hnone]
      by_cases h : c.ownCode = ExitCode.failure
      · rw [htexts h, h, ofTexts_eq_failure_iff]
      · rw [hown h, quoted_eq_nil_of_ownCode h]
        simp

end Complaint

end StackProfiler
