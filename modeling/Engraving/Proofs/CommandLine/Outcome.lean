import Engraving.CommandLine.Run
import Engraving.Proofs.CommandLine.Compilation
import Engraving.Proofs.Duration
import Engraving.Proofs.Program.Completion

/-!
# What requests come to

A request comes to an outcome and a disk. Where it fails, the disk is left as it was found, with one
exception.
-/

namespace Engraving

/-! ## Outcomes of requests

Whatever is told on the way, a request comes to an outcome and a disk that follow from the disk it
finds: `Request.outcome`. On the way no error is told; there is one record of an error in the end if
the outcome is a failure that is told, and none otherwise.
-/

namespace CommandLine

/-! ### Making and writing a picture -/

/-- What a program is drawn as before anything is written, and where the picture goes. -/
structure Sketch where
  figure : Figure
  file : String

/-- The sketch of a program in a style. -/
def Sketch.of? [RingMaker] (program : Except FileError (List UInt8)) (output : String)
    (style : PreviewStyle) : Except RunError Sketch := do
  let path ← (Toolpath.ofBytes? false (← program.mapError .file)).mapError .program
  let figure ←
    (Figure.ofToolpath? path style.width style.height style .identity).mapError .figure
  figure.checkOutline?.mapError .outline
  let file ← (pictureFile? output).mapError id
  (checkPicture? figure).mapError id
  return ⟨figure, file⟩

section

variable {m : Type → Type} [Monad m] [Host m] (threshold : LogLevel)

def makeSketch [RingMaker] (program output : String) (style : PreviewStyle) : Step m Sketch := do
  let path ← Step.ofExcept .program (Toolpath.ofBytes? false (← Step.read program))
  path.idleLines.forM fun (number, line) ↦ note threshold .debug
    ("Line " ++ toString number ++ " has no motion command: " ++ String.ofList line)
  if 0 < path.arcCount then
    note threshold .debug
      ("Approximated " ++ toString path.arcCount ++ " arc moves as straight chords")
  note threshold .info (toolpathText path)
  let figure ← Step.ofExcept .figure
    (Figure.ofToolpath? path style.width style.height style .identity)
  Step.ofExcept .outline figure.checkOutline?
  let file ← Step.ofExcept id (pictureFile? output)
  Step.ofExcept id (checkPicture? figure)
  return ⟨figure, file⟩

def writeSketch (output : String) (s : Sketch) : Step m Unit := do
  Step.write s.file (.figure s.figure)
  note threshold .info ("Saved toolpath preview to " ++ output)

theorem previewProgram_eq [LawfulMonad m] [RingMaker] (program output : String)
    (style : PreviewStyle) :
    (previewProgram threshold program output style : Step m Unit)
      = makeSketch threshold program output style >>= writeSketch threshold output := by
  simp only [previewProgram, makeSketch, bind_assoc]
  refine bind_congr fun bytes ↦ bind_congr fun path ↦ bind_congr fun _ ↦ ?_
  split <;> simp only [writeSketch, bind_assoc, pure_bind]

end

variable {threshold : LogLevel} {program output : String} {style : PreviewStyle} {w : Workbench}
  {d : Disk}

theorem yields_makeSketch [RingMaker] (threshold : LogLevel) (program output : String)
    (style : PreviewStyle) (d : Disk) :
    (makeSketch threshold program output style).Yields threshold d
      (Sketch.of? (d.read program) output style) := by
  refine (Step.Yields.read program).bind fun bytes _ ↦ ?_
  refine (Step.Yields.ofExcept _ _).bind fun path _ ↦ ?_
  refine .silent_bind (.forM fun _ _ ↦ .note (by decide) _) ?_
  refine .ite_of_imp (fun hrest ↦ .note_bind (by decide) _ hrest) (.note_bind (by decide) _ ?_)
  refine (Step.Yields.ofExcept _ _).bind fun figure _ ↦ ?_
  refine (Step.Yields.ofExcept _ _).bind fun _ _ ↦ ?_
  refine (Step.Yields.ofExcept _ _).bind fun file _ ↦ ?_
  exact (Step.Yields.ofExcept _ _).bind fun _ _ ↦ .pure _

/-! ### Outcomes -/

/-- What a draft comes to when it is written, and the disk after that. -/
def Draft.outcome (t : Draft) (output : String) (d : Disk) : Except RunError Unit × Disk :=
  match d.write output (.text t.program), travelText t.piece with
  | .error e, _ => (.error (.file e), d)
  | .ok disk, .error e => (.error (.number e), disk)
  | .ok disk, .ok _ => (.ok (), disk)

/-- What a sketch comes to when it is written, and the disk after that. -/
def Sketch.outcome (s : Sketch) (d : Disk) : Except RunError Unit × Disk :=
  match d.write s.file (.figure s.figure) with
  | .error e => (.error (.file e), d)
  | .ok disk => (.ok (), disk)

/-- What a command comes to under a configuration, and the disk after it. -/
def Command.outcome [PictureDecoder] [RingMaker] (command : Command) (c : Config) (d : Disk) :
    Except RunError Unit × Disk :=
  match command with
  | .compile image a =>
    match Draft.of? (d.read image) (a.override c) with
    | .error e => (.error e, d)
    | .ok draft => draft.outcome a.output d
  | .preview program a =>
    match Sketch.of? (d.read program) a.output (a.override c.preview) with
    | .error e => (.error e, d)
    | .ok sketch => sketch.outcome d

/-- What a request comes to, and the disk after it. -/
def Request.outcome [DocumentReader] [PictureDecoder] [RingMaker] (r : Request) (d : Disk) :
    Except RunError Unit × Disk :=
  match r.arguments.load? d with
  | .error e => (.error (.config e), d)
  | .ok c => r.command.outcome c d

/-- The workbench after a part of a run that has left a disk and told some records. -/
def Workbench.after (threshold : LogLevel) (w : Workbench) (disk : Disk)
    (records : List LogRecord) : Workbench :=
  Workbench.tell threshold { w with disk } records

theorem run_compileImage_of_draft [PictureDecoder] {image : String} {c : Config} {draft : Draft}
    (h : Draft.of? (w.disk.read image) c = .ok draft) :
    ∃ records, IsQuiet records ∧
      (compileImage threshold image output c : Step (StateM Workbench) Unit).run.run w
        = ((draft.outcome output w.disk).1,
          w.after threshold (draft.outcome output w.disk).2 records) := by
  have hrecords : IsQuiet draft.records := by simp [IsQuiet, Draft.records]
  rw [run_compileImage_of_ok h, Draft.outcome]
  rcases w.disk.write output (.text draft.program) with e | disk
  · exact ⟨_, hrecords, rfl⟩
  · rcases travelText draft.piece with e | travel
    · exact ⟨_, hrecords.append (by simp [IsQuiet, Draft.writtenRecord]), rfl⟩
    · exact ⟨_, hrecords.append (by simp [IsQuiet, Draft.writtenRecord]), rfl⟩

theorem run_writeSketch (threshold : LogLevel) (s : Sketch) (output : String) (w : Workbench) :
    ∃ records, IsQuiet records ∧
      (writeSketch threshold output s : Step (StateM Workbench) Unit).run.run w
        = ((s.outcome w.disk).1, w.after threshold (s.outcome w.disk).2 records) := by
  rw [writeSketch, Step.run_bind, Step.run_write, Sketch.outcome]
  rcases w.disk.write s.file (.figure s.figure) with e | disk
  · exact ⟨[], isQuiet_nil, rfl⟩
  · refine ⟨[⟨.info, "Saved toolpath preview to " ++ output⟩], by simp [IsQuiet], ?_⟩
    exact Step.run_note ..

theorem run_perform [PictureDecoder] [RingMaker] (r : Request) (c : Config) (w : Workbench) :
    ∃ records, IsQuiet records ∧ (perform r c : Step (StateM Workbench) Unit).run.run w
      = ((r.command.outcome c w.disk).1,
        w.after r.arguments.threshold (r.command.outcome c w.disk).2 records) := by
  rcases r with ⟨g, ⟨image, a⟩ | ⟨program, a⟩⟩
  · simp only [perform, Command.outcome]
    rcases hdraft : Draft.of? (w.disk.read image) (a.override c) with e | draft
    · exact run_compileImage_of_error hdraft
    · exact run_compileImage_of_draft hdraft
  · simp only [perform, Command.outcome, previewProgram_eq, Step.run_bind]
    obtain ⟨first, hfirst, hmake⟩ :=
      yields_makeSketch g.threshold program a.output (a.override c.preview) _ w rfl
    rw [hmake]
    rcases Sketch.of? (w.disk.read program) a.output (a.override c.preview) with e | sketch
    · exact ⟨first, hfirst, rfl⟩
    · obtain ⟨later, hlater, hwrite⟩ :=
        run_writeSketch g.threshold sketch a.output (w.tell g.threshold first)
      refine ⟨first ++ later, hfirst.append hlater, ?_⟩
      simp only [hwrite, Workbench.disk_tell, Workbench.after, Workbench.tell_with_disk,
        Workbench.tell_tell]

/-- **What a run comes to.** The workbench is left with the disk of the request's outcome, and told
are records of no errors, to which a failure that is told adds one. -/
theorem exists_runOn_eq [DocumentReader] [PictureDecoder] [RingMaker] {words : List String}
    {r : Request} (h : Request.ofWords? words = .ok r) (w : Workbench) :
    ∃ records start, IsQuiet records ∧ runOn words w = match r.outcome w.disk with
      | (.ok (), disk) => (.ok 0, w.after r.arguments.threshold disk records)
      | (.error e, disk) =>
        if e.isTold then (.ok 1, w.after r.arguments.threshold disk
          (records ++ [⟨.error, start ++ e.message⟩]))
        else (.error e, w.after r.arguments.threshold disk records) := by
  rw [runOn_eq h, Request.outcome]
  rcases r.arguments.load? w.disk with e | c
  · refine ⟨[], "Invalid configuration: ", isQuiet_nil, ?_⟩
    simp only [run_conclude]
    rfl
  · obtain ⟨records, hquiet, hrun⟩ := run_perform r c w
    refine ⟨records, r.command.failureText, hquiet, ?_⟩
    simp only [hrun, run_conclude]
    rcases r.command.outcome c w.disk with ⟨e | ⟨⟩, disk⟩
    · simp only [Workbench.after, Workbench.tell_tell]
    · rfl

end CommandLine

/-! ## Runs that fail after writing

Everything that can fail comes before anything is written, with one exception: how long an engraving
takes is told after its program is written, and an infinite duration cannot be told. Then a run
fails and leaves its program behind. In every other run that fails, the disk is left as it was.
-/

/-- The time that a program takes lies beyond the finite floats. -/
def Workpiece.IsEndless (w : Workpiece Quantity) : Prop :=
  ∃ t : Float, w.elapsed = .real t ∧ Exact.ofFloat t = .infinite false

/-- A disk on which something is written is another disk. -/
theorem Disk.ne_of_write {d d' : Disk} {path : String} {content : FileContent}
    (h : d.write path content = .ok d') : d' ≠ d := by
  rw [Disk.eq_of_write h]
  intro heq
  exact List.cons_ne_self _ _ (congrArg Disk.written heq)

namespace CommandLine

theorem travelText_eq_error_iff {piece : Workpiece Quantity} (h : piece.IsMeasured)
    {e : NumberError} : travelText piece = .error e ↔ piece.IsEndless ∧ e = .infinite := by
  obtain ⟨x, t, hdistance, helapsed⟩ := h
  have hendless : piece.IsEndless ↔ Exact.ofFloat t = .infinite false := by
    rw [Workpiece.IsEndless, helapsed]
    exact ⟨fun ⟨_, ht, hinfinite⟩ ↦ by cases ht; exact hinfinite, fun h ↦ ⟨t, rfl, h⟩⟩
  rw [hendless, ← Duration.ofSeconds?_eq_error_iff, travelText, hdistance, helapsed]
  change (Duration.ofSeconds? t >>= fun duration ↦ Except.ok duration.text) >>= _ = _ ↔ _
  rcases Duration.ofSeconds? t with _ | _
  · exact ⟨by rintro ⟨⟩; rfl, by rintro ⟨⟩; rfl⟩
  · exact iff_of_false (by rintro ⟨⟩) (by rintro ⟨⟩)

/-- A request is to compile an image into a program whose duration cannot be told, which is written
all the same. -/
inductive Request.Overruns [DocumentReader] [PictureDecoder] : Request → Disk → Disk → Prop
  | intro {g : GlobalArguments} {image : String} {a : CompileArguments} {c : Config} {draft : Draft}
    {d d' : Disk} (load : g.load? d = .ok c)
    (make : Draft.of? (d.read image) (a.override c) = .ok draft)
    (write : d.write a.output (.text draft.program) = .ok d')
    (endless : draft.piece.IsEndless) : Overruns ⟨g, .compile image a⟩ d d'

theorem Draft.isMeasured [PictureDecoder] {content : Except FileError (List UInt8)} {c : Config}
    {draft : Draft}
    (h : Draft.of? content c = .ok draft) : draft.piece.IsMeasured := by
  obtain ⟨_, _, -, -, -, -, hpiece, -⟩ := parts_of_of? h
  exact isMeasured_of_compile? hpiece

/-- A draft that fails is not written, or it is endless. -/
theorem Draft.outcome_eq_error {draft : Draft} {output : String} {d d' : Disk} {e : RunError}
    (hmeasured : draft.piece.IsMeasured) (h : draft.outcome output d = (.error e, d')) :
    (d' = d ∧ ∃ failure, e = .file failure) ∨
      d.write output (.text draft.program) = .ok d' ∧ draft.piece.IsEndless := by
  rw [Draft.outcome] at h
  rcases hwrite : d.write output (.text draft.program) with failure | written
  · rw [hwrite] at h
    cases h
    exact Or.inl ⟨rfl, failure, rfl⟩
  · rcases htravel : travelText draft.piece with failure | _
    · rw [hwrite, htravel] at h
      cases h
      exact Or.inr ⟨rfl, ((travelText_eq_error_iff hmeasured).mp htravel).1⟩
    · rw [hwrite, htravel] at h
      cases h

theorem Sketch.outcome_eq_error {s : Sketch} {d d' : Disk} {e : RunError}
    (h : s.outcome d = (.error e, d')) : d' = d ∧ ∃ failure, e = .file failure := by
  rw [Sketch.outcome] at h
  rcases hwrite : d.write s.file (.figure s.figure) with failure | _
  · rw [hwrite] at h
    cases h
    exact ⟨rfl, failure, rfl⟩
  · rw [hwrite] at h
    cases h

/-- An endless draft that is written fails in the end. -/
theorem Request.Overruns.outcome [DocumentReader] [PictureDecoder] [RingMaker] {r : Request}
    {d d' : Disk} (h : r.Overruns d d') :
    r.outcome d = (.error (.number .infinite), d') := by
  obtain ⟨hload, hmake, hwrite, hendless⟩ := h
  have htravel := (travelText_eq_error_iff (Draft.isMeasured hmake)).mpr ⟨hendless, rfl⟩
  simp only [Request.outcome, hload, Command.outcome, hmake, Draft.outcome, hwrite, htravel]

theorem Request.overruns_iff [DocumentReader] [PictureDecoder] [RingMaker] {r : Request}
    {d d' : Disk} :
    (∃ e, r.outcome d = (.error e, d')) ∧ d' ≠ d ↔ r.Overruns d d' := by
  constructor
  · rintro ⟨⟨e, houtcome⟩, hne⟩
    rcases r with ⟨g, command⟩
    rw [Request.outcome] at houtcome
    rcases hload : g.load? d with _ | c <;> simp only [hload] at houtcome
    · cases houtcome
      exact absurd rfl hne
    rcases command with ⟨image, a⟩ | ⟨program, a⟩ <;> simp only [Command.outcome] at houtcome
    · rcases hmake : Draft.of? (d.read image) (a.override c) with _ | draft <;>
        simp only [hmake] at houtcome
      · cases houtcome
        exact absurd rfl hne
      · obtain ⟨rfl, -⟩ | ⟨hwrite, hendless⟩ :=
          Draft.outcome_eq_error (Draft.isMeasured hmake) houtcome
        · exact absurd rfl hne
        · exact ⟨hload, hmake, hwrite, hendless⟩
    · split at houtcome
      · cases houtcome
        exact absurd rfl hne
      · exact absurd (Sketch.outcome_eq_error houtcome).1 hne
  · intro h
    refine ⟨⟨_, h.outcome⟩, ?_⟩
    obtain ⟨-, -, hwrite, -⟩ := h
    exact Disk.ne_of_write hwrite

/-- **What failed runs leave behind.** Whatever the command line, the files and the libraries, a run
that does not succeed has written something exactly when it has compiled an image into a program
whose duration cannot be told; it has written this program then. -/
theorem fails_and_writes_iff [DocumentReader] [PictureDecoder] [RingMaker] {words : List String}
    {w : Workbench} {disk : Disk} :
    (runOn words w).1 ≠ .ok 0 ∧ (runOn words w).2.disk = disk ∧ disk ≠ w.disk ↔
      ∃ r, Request.ofWords? words = .ok r ∧ r.Overruns w.disk disk := by
  rcases hwords : Request.ofWords? words with refusal | r
  · -- A command line that is refused is not run at all.
    have hrun : runOn words w = (.ok refusal.code, w) := by
      rw [runOn, runWords, hwords]
      rfl
    rw [hrun]
    exact iff_of_false (fun h ↦ h.2.2 h.2.1.symm) (by rintro ⟨_, ⟨⟩, _⟩)
  · obtain ⟨records, start, -, hrun⟩ := exists_runOn_eq hwords w
    simp only [hrun, Except.ok.injEq, exists_eq_left', ← Request.overruns_iff]
    rcases r.outcome w.disk with ⟨e | ⟨⟩, left⟩
    · simp only [Prod.mk.injEq, Except.error.injEq, exists_and_right, exists_eq', true_and]
      by_cases htold : e.isTold
      · simp only [if_pos htold]
        exact and_iff_right (by rintro ⟨⟩)
      · simp only [if_neg htold]
        exact and_iff_right (by rintro ⟨⟩)
    · exact iff_of_false (fun h ↦ h.1 rfl) (by rintro ⟨⟨_, ⟨⟩⟩, _⟩)

/-- An engraving whose width is a float, but whose duration is not, at one millimetre a minute. -/
theorem fails_and_writes_endless : ∃ r,
    Request.ofWords? ["compile", "dot.pgm", "--width-mm", "1e308", "--feed-rate", "1"] = .ok r ∧
      r.Overruns Workbench.dot.disk (runOn
        ["compile", "dot.pgm", "--width-mm", "1e308", "--feed-rate", "1"] .dot).2.disk := by
  have hfails : (runOn ["compile", "dot.pgm", "--width-mm", "1e308", "--feed-rate", "1"]
      .dot).1.toOption = none := by decide +kernel
  have hwrites : (runOn ["compile", "dot.pgm", "--width-mm", "1e308", "--feed-rate", "1"]
      .dot).2.disk.written.length = 1 := by decide +kernel
  refine fails_and_writes_iff.mp ⟨fun h ↦ ?_, rfl, fun h ↦ ?_⟩
  · rw [h] at hfails
    cases hfails
  · rw [h] at hwrites
    cases hwrites

end CommandLine

end Engraving
