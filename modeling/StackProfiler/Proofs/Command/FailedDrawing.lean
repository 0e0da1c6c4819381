import Mathlib.Logic.Basic
import StackProfiler.Command.Run

/-!
# Drawings that fail

A command that draws creates its output file before it draws. So if there is nothing to draw, or
the canvas is too narrow, the output file is empty afterwards, whatever it held before, and nothing
else in the file system has changed.

- **outcomes**: `Ends`, a property of every outcome of a command, with a rule for each way to build
  commands;
- **before the output**: `Quiet`, what reading profiles and building trees may do to the world;
- **main statement**: `failed_drawing_empties_output`.
-/

namespace StackProfiler

/-! ## Section 1: Files -/

namespace FileSystem

theorem node?_put {fs : FileSystem} {location : List String} (hroot : location ≠ [])
    (bytes : ByteArray) (other : List String) :
    (fs.put location bytes).node? other =
      if other = location then some (.file bytes) else fs.node? other := by
  have hkept : ∀ entries : List (List String × FileNode), other ≠ location →
      (entries.filter (·.1 != location)).find? (·.1 == other) = entries.find? (·.1 == other) := by
    intro entries hne
    rw [List.find?_filter]
    congr 1
    funext entry
    by_cases hentry : entry.1 = other
    · simp [hentry, hne]
    · simp [hentry]
  by_cases hother : other = location
  · subst hother
    simp [node?, put, hroot]
  · simp [node?, put, hother, Ne.symm hother, hkept _ hother]

/-- What stood at a location before does not matter on the way to it. -/
theorem follow_put {fs : FileSystem} {location : List String} {bytes : ByteArray}
    (hfile : fs.node? location ≠ some .directory) {names start : List String}
    (h : fs.follow start names = .ok location) :
    (fs.put location bytes).follow start names = .ok location := by
  have hroot : location ≠ [] := by
    rintro rfl
    exact hfile rfl
  induction names generalizing start with
  | nil => exact h
  | cons name names ih =>
    -- only directories are passed, and at the location there is none
    rw [follow] at h ⊢
    cases hnode : fs.node? start with
    | none => simp [hnode] at h
    | some node =>
      cases node with
      | file old => simp [hnode] at h
      | directory =>
        have hne : start ≠ location := by
          rintro rfl
          exact hfile hnode
        rw [hnode] at h
        obtain ⟨_, hgrant, h⟩ := Checked.bind_eq_ok_iff.mp h
        rw [node?_put hroot, if_neg hne, hnode]
        refine Checked.bind_eq_ok_iff.mpr ⟨(), hgrant, ?_⟩
        split at h
        · next hup =>
          rw [if_pos hup]
          exact ih h
        · next hdown =>
          rw [if_neg hdown]
          split at h
          · contradiction
          · next hshort =>
            rw [if_neg hshort]
            exact ih h

/-- A place for a new file is where the path leads to, and no directory. -/
theorem locateNew_eq_ok {fs : FileSystem} {path : String} {location : List String}
    (h : fs.locateNew path = .ok location) :
    fs.locate path = .ok location ∧ fs.node? location ≠ some .directory ∧
      namesDirectory path = false := by
  obtain ⟨found, hlocate, h⟩ := Checked.bind_eq_ok_iff.mp h
  obtain ⟨_, hfree, h⟩ := Checked.bind_eq_ok_iff.mp h
  obtain ⟨_, -, h⟩ := Checked.bind_eq_ok_iff.mp h
  cases h
  refine ⟨hlocate, ?_⟩
  unfold fitsFile at hfree
  split at hfree
  · contradiction
  all_goals
    next hnode =>
    split at hfree
    · contradiction
    · next hname => exact ⟨by simp [hnode], by simpa using hname⟩

/-- A file that was created at the end of a path stands there. -/
theorem read_put {fs : FileSystem} {path : String} {location : List String} {bytes : ByteArray}
    (h : fs.locateNew path = .ok location) : (fs.put location bytes).read path = .ok bytes := by
  obtain ⟨hlocate, hfile, hname⟩ := locateNew_eq_ok h
  have hroot : location ≠ [] := by
    rintro rfl
    exact hfile rfl
  have hput : (fs.put location bytes).locate path = .ok location := by
    unfold locate at hlocate ⊢
    split at hlocate
    · contradiction
    · next hne =>
      rw [if_neg hne]
      exact follow_put hfile hlocate
  have hnode : (fs.put location bytes).node? location = some (.file bytes) := by
    rw [node?_put hroot, if_pos rfl]
  simp [read, nodeAt, hput, hnode, hname, contentOf, bind, Except.bind]

end FileSystem

/-! ## Section 2: Outcomes of commands -/

/-- The drawing that was asked for cannot be made: of no samples, or on too narrow a canvas. -/
def Cause.IsUndrawable (c : Cause) : Prop :=
  c = .render .noSamples ∨ ∃ width, c = .render (.invalidWidth width)

/-- The worlds differ at most in their notices. -/
def World.SameButNotices (w w' : World) : Prop :=
  w' = { w with notices := w'.notices }

namespace World.SameButNotices

variable {w w₁ w₂ : World}

theorem refl (w : World) : SameButNotices w w := rfl

theorem trans (h₁ : SameButNotices w w₁) (h₂ : SameButNotices w₁ w₂) : SameButNotices w w₂ := by
  unfold SameButNotices at *
  rw [h₂, h₁]

theorem files_eq (h : SameButNotices w w₁) : w₁.files = w.files := by
  rw [h]

theorem output_eq (h : SameButNotices w w₁) : w₁.output = w.output := by
  rw [h]

end World.SameButNotices

namespace Command

open Arguments

variable {α β : Type}

theorem runIn_bind (x : Command α) (f : α → Command β) (w : World) :
    (x >>= f).runIn w = x.runIn w >>= fun
      | (.ok a, w₁) => (f a).runIn w₁
      | (.error e, w₁) => .ok (.error e, w₁) := by
  show Except.bind _ _ = Except.bind _ _
  congr 1
  funext ⟨r, w₁⟩
  cases r <;> rfl

/-- Every outcome of the command in the world is as stated. -/
def Ends (c : Command α) (w : World) (post : Except Failure α → World → Prop) : Prop :=
  ∀ r w', c.runIn w = .ok (r, w') → post r w'

section

variable {w : World} {post : Except Failure β → World → Prop}

theorem Ends.pure {b : β} (h : post (.ok b) w) : Ends (Pure.pure b) w post := by
  intro r w' hrun
  cases hrun
  exact h

theorem Ends.throw {f : Failure} (h : post (.error f) w) : Ends (throw f) w post := by
  intro r w' hrun
  cases hrun
  exact h

/-- A sequence of two commands ends in the first one, if that fails, or in the second one. -/
theorem Ends.bind {x : Command α} {f : α → Command β}
    (h : x.Ends w fun r w₁ =>
      match r with
      | .ok a => (f a).Ends w₁ post
      | .error e => post (.error e) w₁) : (x >>= f).Ends w post := by
  intro r w' hrun
  rw [runIn_bind] at hrun
  obtain ⟨⟨r₁, w₁⟩, hx, hrest⟩ := Checked.bind_eq_ok_iff.mp hrun
  have hpost := h r₁ w₁ hx
  cases r₁ with
  | ok a => exact hpost r w' hrest
  | error e =>
    cases hrest
    exact hpost

theorem Ends.mono {post' : Except Failure β → World → Prop} {c : Command β} (h : c.Ends w post)
    (himp : ∀ r w', post r w' → post' r w') : c.Ends w post' :=
  fun r w' hrun => himp r w' (h r w' hrun)

/-- A computation on words ends in its answer, or in a fault, which is no outcome. -/
theorem Ends.ofChecked {c : Checked β} (h : ∀ b, c = .ok b → post (.ok b) w) :
    (ofChecked c).Ends w post := by
  intro r w' hrun
  cases c with
  | error fault => cases hrun
  | ok b =>
    cases hrun
    exact h b rfl

end

/-! ## Section 3: What happens before the output is opened -/

/-- The command only gives notices, and if it fails, that is not because of a drawing. -/
def Quiet (c : Command α) : Prop :=
  ∀ w, c.Ends w fun r w' =>
    w.SameButNotices w' ∧ ∀ f, r = .error f → ¬f.cause.IsUndrawable

namespace Quiet

theorem pure (a : α) : Quiet (Pure.pure a) :=
  fun w => .pure ⟨.refl w, nofun⟩

theorem throw {f : Failure} (h : ¬f.cause.IsUndrawable) : Quiet (throw f : Command α) := by
  intro w
  refine .throw ⟨.refl w, fun f' hf => ?_⟩
  cases hf
  exact h

/-- A quiet command is passed in a world with more notices. -/
theorem before {x : Command α} (hx : Quiet x) {f : α → Command β} {w : World}
    {post : Except Failure β → World → Prop}
    (hfail : ∀ e w₁, w.SameButNotices w₁ → ¬e.cause.IsUndrawable → post (.error e) w₁)
    (hf : ∀ a w₁, w.SameButNotices w₁ → (f a).Ends w₁ post) : (x >>= f).Ends w post := by
  refine .bind ((hx w).mono fun r w₁ h => ?_)
  cases r with
  | ok a => exact hf a w₁ h.1
  | error e => exact hfail e w₁ h.1 (h.2 e rfl)

theorem bind {x : Command α} {f : α → Command β} (hx : Quiet x) (hf : ∀ a, Quiet (f a)) :
    Quiet (x >>= f) := by
  intro w
  refine hx.before (fun e w₁ hsame hcause => ⟨hsame, ?_⟩) fun a w₁ hsame => ?_
  · rintro f ⟨⟩
    exact hcause
  · exact (hf a w₁).mono fun r w' h => ⟨hsame.trans h.1, h.2⟩

theorem get : Quiet (MonadState.get : Command World) := by
  intro w r w' hrun
  cases hrun
  exact ⟨.refl w, nofun⟩

theorem give (n : Notice) : Quiet (give n) := by
  intro w r w' hrun
  cases hrun
  exact ⟨rfl, nofun⟩

theorem log (level : LogLevel) (topic message : String) : Quiet (log level topic message) :=
  give _

theorem forM {γ : Type} {f : γ → Command Unit} (h : ∀ c, Quiet (f c)) (cs : List γ) :
    Quiet (cs.forM f) := by
  induction cs with
  | nil => exact pure ()
  | cons c cs ih => exact (h c).bind fun _ => ih

theorem ofChecked (c : Checked α) : Quiet (ofChecked c) :=
  fun w => .ofChecked fun _ _ => ⟨.refl w, nofun⟩

theorem orErrno (context : String) (r : Except Errno α) : Quiet (orErrno context r) := by
  cases r with
  | ok a => exact pure a
  | error e => exact throw (by simp [Failure.within, Cause.IsUndrawable])

theorem orFoldError (context : String) (r : Except FoldError α) :
    Quiet (orFoldError context r) := by
  cases r with
  | ok a => exact pure a
  | error e => exact throw (by simp [Failure.within, Cause.IsUndrawable])

theorem parseFolded (context : String) (bytes : Except IoError ByteArray) :
    Quiet (parseFolded context bytes) :=
  (orFoldError _ _).bind fun _ => (ofChecked _).bind fun _ => (orFoldError _ _).bind fun f =>
    (log _ _ _).bind fun _ => pure f

theorem readFolded (path : String) : Quiet (readFolded path) :=
  get.bind fun _ => (orErrno _ _).bind fun _ => (parseFolded _ _).bind fun f =>
    (log _ _ _).bind fun _ => pure f

theorem buildTree (f : FoldedStacks) : Quiet (buildTree f) :=
  (ofChecked _).bind fun tree => (forM (fun _ => log _ _ _) _).bind fun _ => pure tree

end Quiet

/-! ## Section 4: Opening the output and drawing -/

/-- The place for a document has been opened and nothing was written to it. -/
def Emptied (output : Option String) (w w' : World) : Prop :=
  w'.output = w.output ∧
    match output with
    | none => w'.files = w.files
    | some path =>
      ∃ location, w.files.locateNew path = .ok location ∧ w'.files = w.files.put location .empty

/-- If a command failed because of a drawing, its output is empty. -/
def FailedEmpty (output : Option String) (w : World) (r : Except Failure Unit) (w' : World) :
    Prop :=
  ∀ f, r = .error f → f.cause.IsUndrawable → Emptied output w w'

theorem Emptied.of_sameButNotices {output : Option String} {w w₁ w' : World}
    (hsame : w.SameButNotices w₁) (h : Emptied output w₁ w') : Emptied output w w' := by
  unfold Emptied at *
  rwa [hsame.files_eq, hsame.output_eq] at h

theorem openSink_ends (output : Option String) (w : World) :
    (openSink output).Ends w fun r w' =>
      match r with
      | .ok _ => Emptied output w w'
      | .error f => ¬f.cause.IsUndrawable := by
  cases output with
  | none => exact .pure ⟨rfl, rfl⟩
  | some path =>
    intro r w' hrun
    cases hlocate : w.files.locateNew path with
    | error e =>
      have hfail : (openSink (some path)).runIn w =
          .ok (.error { contexts := ["Failed to create " ++ path], cause := .io (.system e) },
            w) := by
        show (orErrno ("Failed to create " ++ path) (w.files.locateNew path) >>= _).runIn w = _
        rw [hlocate]
        rfl
      rw [hfail] at hrun
      cases hrun
      simp [Cause.IsUndrawable]
    | ok location =>
      have hopen : (openSink (some path)).runIn w =
          .ok (.ok (.file location), { w with files := w.files.put location .empty }) := by
        show (orErrno ("Failed to create " ++ path) (w.files.locateNew path) >>= _).runIn w = _
        rw [hlocate]
        rfl
      rw [hopen] at hrun
      cases hrun
      exact ⟨rfl, location, hlocate, rfl⟩

/-- Writing ends with what failed, if anything did. -/
theorem write_ends (sink : Sink) (text : String) (w : World) :
    (sink.write text).Ends w fun r _ => ∃ written, r = .ok written := by
  have hput : ∀ bytes w₁, (sink.put bytes).Ends w₁ fun r _ => r = .ok () := by
    intro bytes w₁ r w' hrun
    cases hrun
    rfl
  refine .bind fun r w₁ hget => ?_
  cases hget
  dsimp only
  split <;>
  · refine .bind ((hput _ _).mono ?_)
    rintro _ w₂ rfl
    exact .pure ⟨_, rfl⟩

/-- A drawing that cannot be made changes nothing; to fail at writing is something else. -/
theorem writeDrawing_ends (sink : Sink) (drawing : Except RenderError String) (w : World) :
    (writeDrawing sink drawing).Ends w fun r w' =>
      ∀ f, r = .error f → f.cause.IsUndrawable → w' = w := by
  cases drawing with
  | error e => exact .bind (.throw fun _ _ _ => rfl)
  | ok text =>
    refine .bind (.pure (.bind ((write_ends sink text w).mono ?_)))
    rintro _ w₁ ⟨written, rfl⟩
    cases written with
    | ok _ => exact .pure nofun
    | error e =>
      refine .throw ?_
      rintro f ⟨⟩ hcause
      simp [Cause.IsUndrawable] at hcause

/-- In every world, if the command fails because of a drawing, its output is empty. -/
def EmptiesOutput (output : Option String) (c : Command Unit) : Prop :=
  ∀ w, c.Ends w (FailedEmpty output w)

/-- What happens before the output is opened does not matter. -/
theorem EmptiesOutput.after {output : Option String} {x : Command α} {f : α → Command Unit}
    (hx : Quiet x) (hf : ∀ a, EmptiesOutput output (f a)) : EmptiesOutput output (x >>= f) := by
  intro w
  refine hx.before (fun e w₁ hsame hcause => ?_) fun a w₁ hsame => ?_
  · rintro f ⟨⟩ hundrawable
    exact absurd hundrawable hcause
  · exact (hf a w₁).mono fun r w' h f hr hcause => (h f hr hcause).of_sameButNotices hsame

/-- A command that draws opens the output first. -/
theorem EmptiesOutput.draw (output : Option String) (drawing : Checked (Except RenderError String))
    (message : String) :
    EmptiesOutput output (do
      let sink ← openSink output
      writeDrawing sink (← ofChecked drawing)
      say message) := by
  intro w
  refine .bind ((openSink_ends output w).mono fun r w₁ hopened => ?_)
  cases r with
  | error f =>
    rintro f' ⟨⟩ hcause
    exact absurd hcause hopened
  | ok sink =>
    refine .bind (.ofChecked fun drawn hdrawn => ?_)
    refine .bind ((writeDrawing_ends sink drawn w₁).mono fun r w₂ hdrawing => ?_)
    cases r with
    | error f =>
      -- the failure of the drawing leaves the world as it was opened
      rintro f' ⟨⟩ hcause
      rw [hdrawing f rfl hcause]
      exact hopened
    | ok _ =>
      intro r w' hrun
      cases hrun
      exact nofun

theorem render_emptiesOutput (options : RenderOptions) :
    EmptiesOutput options.output (render options) := by
  unfold render
  dsimp only
  split
  case' h_1 path _ => refine .after (.readFolded path) fun folded => ?_
  case' h_2 => refine .after .get fun w => .after (.parseFolded _ _) fun folded => ?_
  -- wherever the profile came from, there may be a warning before it is drawn
  all_goals
    split
    · exact .after (.log _ _ _) fun _ => .after (.buildTree folded) fun tree => .draw _ _ _
    · exact .after (.buildTree folded) fun tree => .draw _ _ _

theorem diff_emptiesOutput (options : DiffOptions) :
    EmptiesOutput options.output (diff options) :=
  .after (.readFolded _) fun _ => .after (.readFolded _) fun _ =>
    .after (.buildTree _) fun _ => .after (.buildTree _) fun _ => .draw _ _ _

/-! ## Section 5: The output of a failed drawing -/

/-- Where an invocation draws to, if it is one that only draws. -/
def drawnTo? : Invocation → Option (Option String)
  | .render options => some options.output
  | .diff options => some options.output
  | _ => none

theorem emptiesOutput_of_drawnTo? {invocation : Invocation} {output : Option String}
    (h : drawnTo? invocation = some output) : EmptiesOutput output (ofInvocation invocation) := by
  cases invocation with
  | render options =>
    cases h
    exact render_emptiesOutput options
  | diff options =>
    cases h
    exact diff_emptiesOutput options
  | record options | selfProfile options => contradiction

/--
**A failed drawing empties its output.** If rendering a profile or a difference fails because there
are no samples, or because the canvas is too narrow, nothing has been written to standard output. If
the output was to be a file, then that file exists and is empty, and at all other locations there
stands what stood there before; otherwise no file has changed.
-/
theorem failed_drawing_empties_output {invocation : Invocation} {output : Option String}
    {w w' : World} {f : Failure} (houtput : drawnTo? invocation = some output)
    (hrun : (ofInvocation invocation).runIn w = .ok (.error f, w'))
    (hcause : f.cause.IsUndrawable) :
    w'.output = w.output ∧
      match output with
      | none => w'.files = w.files
      | some path =>
        w'.files.read path = .ok .empty ∧
          ∃ location, w.files.locate path = .ok location ∧
            ∀ other ≠ location, w'.files.node? other = w.files.node? other := by
  obtain ⟨hprinted, hfiles⟩ := emptiesOutput_of_drawnTo? houtput w _ _ hrun f rfl hcause
  refine ⟨hprinted, ?_⟩
  cases output with
  | none => exact hfiles
  | some path =>
    obtain ⟨location, hlocate, hput⟩ := hfiles
    obtain ⟨hfound, hfile, -⟩ := FileSystem.locateNew_eq_ok hlocate
    have hroot : location ≠ [] := by
      rintro rfl
      exact hfile rfl
    rw [hput]
    refine ⟨FileSystem.read_put hlocate, location, hfound, fun other hother => ?_⟩
    rw [FileSystem.node?_put hroot, if_neg hother]

private def profiled : World where
  files := .ofFiles "/d" [("/d/p", "a 1\n".toUTF8)]

/-- The canvas has no room between its margins, and the output is to replace the profile itself,
which is lost. -/
theorem failed_drawing_empties_output_narrow :
    ∃ w', (ofInvocation (.render
        { input := some "p", output := some "p", graph := { width := 20 } })).runIn profiled =
          .ok (.error { cause := .render (.invalidWidth 20) }, w') ∧
      profiled.files.read "p" = .ok "a 1\n".toUTF8 ∧
      w'.output = profiled.output ∧ w'.files.read "p" = .ok .empty ∧
      ∃ location, profiled.files.locate "p" = .ok location ∧
        ∀ other ≠ location, w'.files.node? other = profiled.files.node? other := by
  refine ⟨_, rfl, rfl, ?_⟩
  exact @failed_drawing_empties_output
    (.render { input := some "p", output := some "p", graph := { width := 20 } })
    (some "p") profiled _ _ rfl rfl (.inr ⟨20, rfl⟩)

private def drawnBefore : World where
  files := .ofFiles "/d" [("/d/out.svg", "<svg/>".toUTF8)]

/-- The drawing that a file held is lost when a profile without samples is rendered to it. -/
theorem noSamples_loses_output :
    ∃ w', (ofInvocation (.render { output := some "out.svg" })).runIn drawnBefore =
        .ok (.error { cause := .render .noSamples }, w') ∧
      drawnBefore.files.read "out.svg" = .ok "<svg/>".toUTF8 ∧
      w'.files.read "out.svg" = .ok .empty ∧
      w'.files.read "out.svg" ≠ drawnBefore.files.read "out.svg" := by
  refine ⟨_, rfl, rfl, rfl, fun h => ?_⟩
  -- the two contents have different lengths
  have hsize : (0 : Nat) = 6 := congrArg (fun r => r.toOption.elim 0 ByteArray.size) h
  contradiction

end Command

end StackProfiler
