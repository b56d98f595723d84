import Engraving.Proofs.CommandLine.Workbench
import Engraving.Proofs.Program.Safety

/-!
# Compiling on a workbench

Everything about a program is settled before anything is written: its `Draft` is a function of the
picture file and the configuration. What a run does with a draft is to write its text, to tell what
it has done, and to tell how long the engraving takes.

A run that comes to its end has written the program of a job. The job's settings are said here one
by one, because a run finds them in three places: on the command line, in a file, and in the
defaults.
-/

namespace Engraving

namespace CommandLine

/-! ## Drafts -/

/-- What an image is compiled into before anything is written. -/
structure Draft where
  grid : Grid
  /-- What is told about the image. -/
  converting : String
  piece : Workpiece Quantity
  /-- The lines of the program after the pass. -/
  texts : List String

namespace Draft

def program (t : Draft) : String := programText t.texts

/-- The draft of an image under a configuration. -/
def of? [PictureDecoder] (image : Except FileError (List UInt8)) (c : Config) :
    Except RunError Draft := do
  let grid ← (sample? (← image.mapError .file)).mapError .picture
  let job := jobOf c
  let setting ← (job.setting? grid).mapError .setting
  let converting ← (convertingText grid c.laser setting).mapError .number
  let piece ← (compile? setting grid job.startX job.startY).mapError .number
  return ⟨grid, converting, piece, job.pass.apply piece.texts⟩

/-- What is told when a draft is finished. -/
def records (t : Draft) : List LogRecord :=
  [⟨.debug, "Sampled " ++ toString t.grid.width ++ "x" ++ toString t.grid.height ++
    " luminance grid"⟩, ⟨.info, t.converting⟩]

/-- What is told when a draft is written. -/
def writtenRecord (t : Draft) (output : String) : LogRecord :=
  ⟨.info, "Wrote " ++ toString t.texts.length ++ " G-code lines to " ++ output⟩

theorem parts_of_of? [PictureDecoder] {content : Except FileError (List UInt8)} {c : Config}
    {t : Draft}
    (h : of? content c = .ok t) :
    ∃ bytes setting, content = .ok bytes ∧ sample? bytes = .ok t.grid ∧
      (jobOf c).setting? t.grid = .ok setting ∧
      convertingText t.grid c.laser setting = .ok t.converting ∧
      compile? setting t.grid (jobOf c).startX (jobOf c).startY = .ok t.piece ∧
      t.texts = (jobOf c).pass.apply t.piece.texts := by
  obtain ⟨bytes, hbytes, h⟩ := bind_eq_ok_iff.mp h
  obtain ⟨grid, hgrid, h⟩ := bind_eq_ok_iff.mp h
  obtain ⟨setting, hsetting, h⟩ := bind_eq_ok_iff.mp h
  obtain ⟨converting, hconverting, h⟩ := bind_eq_ok_iff.mp h
  obtain ⟨piece, hpiece, ⟨⟩⟩ := bind_eq_ok_iff.mp h
  rw [mapError_eq_ok_iff] at hbytes hgrid hsetting hconverting hpiece
  exact ⟨bytes, setting, hbytes, hgrid, hsetting, hconverting, hpiece, rfl⟩

end Draft

/-! ## Making and writing a draft -/

section

variable {m : Type → Type} [Monad m] [Host m] (threshold : LogLevel)

def makeDraft [PictureDecoder] (image : String) (c : Config) : Step m Draft := do
  let grid ← Step.ofExcept .picture (sample? (← Step.read image))
  note threshold .debug
    ("Sampled " ++ toString grid.width ++ "x" ++ toString grid.height ++ " luminance grid")
  let job := jobOf c
  let setting ← Step.ofExcept .setting (job.setting? grid)
  let converting ← Step.ofExcept .number (convertingText grid c.laser setting)
  note threshold .info converting
  let piece ← Step.ofExcept .number (compile? setting grid job.startX job.startY)
  return ⟨grid, converting, piece, job.pass.apply piece.texts⟩

def writeDraft (output : String) (t : Draft) : Step m Unit := do
  Step.write output (.text t.program)
  note threshold .info ("Wrote " ++ toString t.texts.length ++ " G-code lines to " ++ output)
  note threshold .info (← Step.ofExcept .number (travelText t.piece))

theorem compileImage_eq [LawfulMonad m] [PictureDecoder] (image output : String) (c : Config) :
    (compileImage threshold image output c : Step m Unit)
      = makeDraft threshold image c >>= writeDraft threshold output := by
  simp only [compileImage, makeDraft, writeDraft, bind_assoc, pure_bind, Draft.program]

end

variable {threshold : LogLevel} {image output : String} {c : Config} {w : Workbench} {d : Disk}
  {draft : Draft}

theorem yields_makeDraft [PictureDecoder] (threshold : LogLevel) (image : String) (c : Config)
    (d : Disk) :
    (makeDraft threshold image c).Yields threshold d (Draft.of? (d.read image) c) := by
  refine (Step.Yields.read image).bind fun bytes _ ↦ (Step.Yields.ofExcept _ _).bind fun grid _ ↦ ?_
  refine .note_bind (by decide) _ ((Step.Yields.ofExcept _ _).bind fun setting _ ↦ ?_)
  refine (Step.Yields.ofExcept _ _).bind fun converting _ ↦ .note_bind (by decide) _ ?_
  exact (Step.Yields.ofExcept _ _).bind fun piece _ ↦ .pure _

theorem run_makeDraft [PictureDecoder] (h : Draft.of? (w.disk.read image) c = .ok draft) :
    (makeDraft threshold image c : Step (StateM Workbench) Draft).run.run w
      = (.ok draft, w.tell threshold draft.records) := by
  obtain ⟨bytes, setting, hbytes, hgrid, hsetting, hconverting, hpiece, htexts⟩ :=
    Draft.parts_of_of? h
  simp only [makeDraft, Step.run_bind, Step.run_read, Step.run_ofExcept, Step.run_note, hbytes,
    hgrid, hsetting, hconverting, hpiece, mapError_ok, Workbench.tell_tell, ← htexts]
  rfl

/-- An image without a draft is not compiled, and nothing is written. -/
theorem run_compileImage_of_error [PictureDecoder] {e : RunError}
    (h : Draft.of? (w.disk.read image) c = .error e) :
    ∃ records, IsQuiet records ∧
      (compileImage threshold image output c : Step (StateM Workbench) Unit).run.run w
        = (.error e, w.tell threshold records) := by
  obtain ⟨records, hquiet, hrun⟩ := yields_makeDraft threshold image c _ w rfl
  rw [h] at hrun
  exact ⟨records, hquiet, by rw [compileImage_eq, Step.run_bind, hrun]⟩

/-- A draft is written first, and only then it is told how long the engraving takes. -/
theorem run_compileImage_of_ok [PictureDecoder]
    (h : Draft.of? (w.disk.read image) c = .ok draft) :
    (compileImage threshold image output c : Step (StateM Workbench) Unit).run.run w
      = match w.disk.write output (.text draft.program), travelText draft.piece with
        | .error e, _ => (.error (.file e), w.tell threshold draft.records)
        | .ok disk, .error e => (.error (.number e), Workbench.tell threshold { w with disk }
            (draft.records ++ [draft.writtenRecord output]))
        | .ok disk, .ok travel => (.ok (), Workbench.tell threshold { w with disk }
            (draft.records ++ [draft.writtenRecord output, ⟨.info, travel⟩])) := by
  rw [compileImage_eq, Step.run_bind, run_makeDraft h]
  simp only [writeDraft, Step.run_bind, Step.run_write, Workbench.disk_tell, Step.run_note,
    Step.run_ofExcept]
  rcases w.disk.write output (.text draft.program) with e | disk
  · rfl
  · rcases travelText draft.piece with e | travel <;>
      simp [Except.mapError, Workbench.tell_tell, Draft.writtenRecord]

/-! ## Finished runs -/

/-- The job that is done, setting by setting: what is said on the command line goes before the
configuration, and a switch is on when it is on in either. -/
def CompileArguments.job (a : CompileArguments) (c : Config) : Job where
  width := .real (a.width?.getD c.layout.width)
  height := .real (a.height?.getD c.layout.height)
  maxPower := .whole (a.maxPower?.getD c.laser.maxPower)
  feedRate := .whole (a.feedRate?.getD c.laser.feedRate)
  startX := .real (a.startX?.getD c.layout.startX)
  startY := .real (a.startY?.getD c.layout.startY)
  invert := a.invert || c.layout.invert
  pass := if a.optimize || c.layout.coalesce then .coalesce else .identity

theorem jobOf_override (a : CompileArguments) (c : Config) : jobOf (a.override c) = a.job c := rfl

theorem Draft.exists_of_of? [PictureDecoder] {content : Except FileError (List UInt8)}
    (h : Draft.of? content c = .ok draft) :
    ∃ bytes, content = .ok bytes ∧ (jobOf c).programOfImage? bytes = .ok draft.program ∧
      (lines draft.program.toList).length = draft.texts.length := by
  obtain ⟨bytes, setting, hbytes, hgrid, hsetting, -, hpiece, htexts⟩ := parts_of_of? h
  rw [program, htexts]
  refine ⟨bytes, hbytes, ?_, ?_⟩
  · rw [Job.programOfImage?, hgrid]
    change (jobOf c).programOfGrid? draft.grid = _
    rw [Job.programOfGrid?, hsetting]
    change (programOf? setting draft.grid (jobOf c).startX (jobOf c).startY
      (jobOf c).pass).mapError _ = _
    rw [programOf?, hpiece]
    rfl
  · rw [lines_program hpiece, List.length_map]

/-- An image that is compiled has a draft, and its text is written. -/
theorem exists_of_run_compileImage [PictureDecoder] {v : Workbench}
    (h : (compileImage threshold image output c : Step (StateM Workbench) Unit).run.run w
      = (.ok (), v)) :
    ∃ draft travel, Draft.of? (w.disk.read image) c = .ok draft ∧
      v.disk = { w.disk with written := (output, .text draft.program) :: w.disk.written } ∧
      v.told = Workbench.told (w.tell threshold
        (draft.records ++ [draft.writtenRecord output, ⟨.info, travel⟩])) := by
  rcases hdraft : Draft.of? (w.disk.read image) c with e | draft
  · obtain ⟨_, -, herror⟩ := run_compileImage_of_error hdraft
    rw [herror] at h
    cases h
  rw [run_compileImage_of_ok hdraft] at h
  rcases hwrite : w.disk.write output (.text draft.program) with e | disk
  · rw [hwrite] at h
    cases h
  rcases htravel : travelText draft.piece with e | travel
  · rw [hwrite, htravel] at h
    cases h
  rw [hwrite, htravel] at h
  cases h
  exact ⟨draft, travel, rfl, Disk.eq_of_write hwrite, rfl⟩

/-- A workbench with a picture of one black pixel. -/
def Workbench.dot : Workbench where
  disk := { files := [("dot.pgm", [80, 53, 32, 49, 32, 49, 32, 50, 53, 53, 10, 0])] }

end CommandLine

end Engraving
