import Engraving.Proofs.CommandLine.Outcome
import Engraving.Proofs.Config.Acceptance
import Engraving.Proofs.Image.Size
import Engraving.Proofs.Preview.Size
import Engraving.Proofs.Program.Refusal

/-!
# Runs that stop without an exit code

Most failures are told as errors, and the run ends with an exit code. The others stop it:
`Request.Escapes` lists them. They are of six kinds, two in compiling, two in what is read, and two
in previewing. Apart from them, a run ends with the exit code zero or one, and it is one exactly
when an error was told.

The libraries that read documents, decode pictures and make rings are any libraries, but for one
thing: pictures of more pixels than are allowed for are not decoded.
-/

namespace Engraving

namespace CommandLine

/-- How a request stops without an exit code. -/
inductive Request.Escapes [DocumentReader] [PictureDecoder] [RingMaker] (d : Disk) : Request → Prop
  /-- The configuration cannot be loaded, but no rule for configurations is broken. -/
  | config {r : Request} {e : LoadError} (load : r.arguments.load? d = .error e)
    (lawful : e.configError? = none) : Escapes d r
  /-- The library fails to decode the picture in a way that is not foreseen. -/
  | picture {g : GlobalArguments} {image : String} {a : CompileArguments} {c : Config}
    {bytes : List UInt8} {e : PictureError} (load : g.load? d = .ok c)
    (read : d.read image = .ok bytes) (decode : sample? bytes = .error e)
    (unforeseen : e.isCaught = false) : Escapes d ⟨g, .compile image a⟩
  /-- The feed rate can be written, but is no float. -/
  | feedRate {g : GlobalArguments} {image : String} {a : CompileArguments} {c : Config}
    {bytes : List UInt8} {grid : Grid} {s : Setting Quantity} (load : g.load? d = .ok c)
    (read : d.read image = .ok bytes) (decode : sample? bytes = .ok grid)
    (setting : (a.job c).setting? grid = .ok s)
    (power : ∃ text, wholeText? (a.maxPower?.getD c.laser.maxPower) = .ok text)
    (rate : ∃ text, wholeText? (a.feedRate?.getD c.laser.feedRate) = .ok text)
    (large : wholeFloat? (a.feedRate?.getD c.laser.feedRate) = .error .tooLarge) :
    Escapes d ⟨g, .compile image a⟩
  /-- The program is written, but its duration cannot be told. -/
  | duration {r : Request} {d' : Disk} (overrun : r.Overruns d d') : Escapes d r
  /-- A side of the surface is no float. -/
  | surface {g : GlobalArguments} {program : String} {a : PreviewArguments} {c : Config}
    {bytes : List UInt8} {path : Toolpath} (load : g.load? d = .ok c)
    (read : d.read program = .ok bytes) (parse : Toolpath.ofBytes? false bytes = .ok path)
    (large : wholeFloat? (a.width?.getD c.preview.width) = .error .tooLarge ∨
      wholeFloat? (a.height?.getD c.preview.height) = .error .tooLarge) :
    Escapes d ⟨g, .preview program a⟩
  /-- The library makes no ring of the outline. -/
  | outline {g : GlobalArguments} {program : String} {a : PreviewArguments} {c : Config}
    {bytes : List UInt8} {path : Toolpath} {figure : Figure} {objection : String}
    (load : g.load? d = .ok c) (read : d.read program = .ok bytes)
    (parse : Toolpath.ofBytes? false bytes = .ok path)
    (draw : Figure.ofToolpath? path (a.width?.getD c.preview.width)
      (a.height?.getD c.preview.height) (a.override c.preview) .identity = .ok figure)
    (ring : RingMaker.objection? figure.drawing.outline = some objection) :
    Escapes d ⟨g, .preview program a⟩

/-! ## Images -/

variable {c : Config} {content : Except FileError (List UInt8)}

section

variable [PictureDecoder] {bytes : List UInt8} {grid : Grid} {s : Setting Quantity}

theorem isMeasured_of_setting? (hlimited : PictureDecoder.IsLimited)
    (hgrid : sample? bytes = .ok grid)
    (h : (jobOf c).setting? grid = .ok s) :
    s.IsMeasured grid c.laser.maxPower c.laser.feedRate := by
  refine Setting.isMeasured_of_forSize? ?_ h
  exact (size_of_sample? hlimited hgrid).trans (by decide)

theorem setting?_ne_number (hlimited : PictureDecoder.IsLimited) (hgrid : sample? bytes = .ok grid)
    (e : NumberError) :
    (jobOf c).setting? grid ≠ .error (.number e) := by
  refine Setting.forSize?_ne_number ?_ e
  exact (size_of_sample? hlimited hgrid).trans (by decide)

end

variable {grid : Grid} {s : Setting Quantity}

theorem exists_convertingText {maxPower feedRate : ℤ} (h : s.IsMeasured grid maxPower feedRate)
    (laser : Laser) : ∃ text, convertingText grid laser s = .ok text := by
  obtain ⟨x, hstep⟩ := h.step
  obtain ⟨y, hpitch⟩ := h.rowPitch
  rw [convertingText, hstep, hpitch]
  exact ⟨_, rfl⟩

/-- Numbers that cannot be written are told, a feed rate that is no float is not. -/
theorem exists_compile?_untold_iff {maxPower feedRate : ℤ} (h : s.IsMeasured grid maxPower feedRate)
    (x y : Float) :
    (∃ e, compile? s grid (.real x) (.real y) = .error e ∧ (RunError.number e).isTold = false) ↔
      (∃ text, wholeText? maxPower = .ok text) ∧ (∃ text, wholeText? feedRate = .ok text) ∧
        wholeFloat? feedRate = .error .tooLarge := by
  constructor
  · rintro ⟨e, hcompile, hquiet⟩
    rcases h.compile?_eq_error_iff.mp hcompile with (hlong | hlong) | ⟨hpower, hrate, hlarge⟩
    · rw [wholeText?_eq_error hlong] at hquiet
      cases hquiet
    · rw [wholeText?_eq_error hlong] at hquiet
      cases hquiet
    · exact ⟨hpower, hrate, wholeFloat?_eq_error hlarge ▸ hlarge⟩
  · intro hlarge
    exact ⟨.tooLarge, h.compile?_eq_error_iff.mpr (Or.inr hlarge), rfl⟩

theorem Draft.exists_error_iff [PictureDecoder] (hlimited : PictureDecoder.IsLimited) :
    (∃ e, Draft.of? content c = .error e ∧ e.isTold = false) ↔
      ∃ bytes, content = .ok bytes ∧
        ((∃ e, sample? bytes = .error e ∧ e.isCaught = false) ∨ ∃ grid s,
          sample? bytes = .ok grid ∧ (jobOf c).setting? grid = .ok s ∧
          (∃ text, wholeText? c.laser.maxPower = .ok text) ∧
          (∃ text, wholeText? c.laser.feedRate = .ok text) ∧
          wholeFloat? c.laser.feedRate = .error .tooLarge) := by
  constructor
  · rintro ⟨e, h, hquiet⟩
    rcases bind_eq_error_iff.mp h with h | ⟨bytes, hbytes, h⟩
    · obtain ⟨_, -, rfl⟩ := mapError_eq_error_iff.mp h
      cases hquiet
    refine ⟨bytes, mapError_eq_ok_iff.mp hbytes, ?_⟩
    rcases bind_eq_error_iff.mp h with h | ⟨grid, hgrid, h⟩
    · obtain ⟨failure, hpicture, rfl⟩ := mapError_eq_error_iff.mp h
      exact Or.inl ⟨failure, hpicture, hquiet⟩
    rw [mapError_eq_ok_iff] at hgrid
    rcases bind_eq_error_iff.mp h with h | ⟨s, hs, h⟩
    · obtain ⟨failure, hsetting, rfl⟩ := mapError_eq_error_iff.mp h
      rcases failure with _ | _ | _ | _ | e
      case number => exact absurd hsetting (setting?_ne_number hlimited hgrid e)
      all_goals cases hquiet
    rw [mapError_eq_ok_iff] at hs
    -- A setting is made of floats, so only the two integers of the laser can stand in the way.
    have hmeasured := isMeasured_of_setting? hlimited hgrid hs
    obtain ⟨text, htext⟩ := exists_convertingText hmeasured c.laser
    rcases bind_eq_error_iff.mp h with h | ⟨_, -, h⟩
    · rw [htext] at h
      cases h
    rcases bind_eq_error_iff.mp h with h | ⟨_, -, ⟨⟩⟩
    obtain ⟨e, hcompile, rfl⟩ := mapError_eq_error_iff.mp h
    have hlarge := (exists_compile?_untold_iff hmeasured _ _).mp ⟨e, hcompile, hquiet⟩
    exact Or.inr ⟨grid, s, hgrid, hs, hlarge⟩
  · rintro ⟨bytes, rfl, ⟨failure, hpicture, hquiet⟩ | ⟨grid, s, hgrid, hs, hlarge⟩⟩
    · refine ⟨.picture failure, ?_, hquiet⟩
      simp only [of?, mapError_ok, ok_bind, hpicture, mapError_error, error_bind]
    · have hmeasured := isMeasured_of_setting? hlimited hgrid hs
      obtain ⟨text, htext⟩ := exists_convertingText hmeasured c.laser
      obtain ⟨e, hcompile, hquiet⟩ := (exists_compile?_untold_iff hmeasured _ _).mpr hlarge
      have hjob : compile? s grid (jobOf c).startX (jobOf c).startY = .error e := hcompile
      refine ⟨.number e, ?_, hquiet⟩
      simp only [of?, mapError_ok, ok_bind, hgrid, hs, htext, hjob, mapError_error, error_bind]

/-! ## Programs -/

theorem isTold_of_pictureFile? {output : String} {e : RunError}
    (h : pictureFile? output = .error e) : e.isTold = true := by
  rw [pictureFile?] at h
  split at h
  · cases h
  · simp only at h
    split at h
    · cases h
    · cases h
      rfl

theorem isTold_of_checkPicture? {f : Figure} {e : RunError} (h : checkPicture? f = .error e) :
    e.isTold = true := by
  rw [checkPicture?] at h
  split at h
  · cases h
    rfl
  · cases h

theorem Figure.checkOutline?_eq_error_iff [RingMaker] {f : Figure} {objection : String} :
    f.checkOutline? = .error objection ↔
      RingMaker.objection? f.drawing.outline = some objection := by
  rw [Figure.checkOutline?]
  rcases RingMaker.objection? f.drawing.outline with _ | _
  · exact iff_of_false (by rintro ⟨⟩) (by rintro ⟨⟩)
  · exact ⟨fun h ↦ congrArg some (Except.error.inj h),
      fun h ↦ congrArg Except.error (Option.some.inj h)⟩

theorem Sketch.exists_error_iff [RingMaker] {style : PreviewStyle} (hstyle : style.IsPlain)
    (output : String) :
    (∃ e, Sketch.of? content output style = .error e ∧ e.isTold = false) ↔
      ∃ bytes path, content = .ok bytes ∧ Toolpath.ofBytes? false bytes = .ok path ∧
        ((wholeFloat? style.width = .error .tooLarge ∨
            wholeFloat? style.height = .error .tooLarge) ∨
          ∃ figure objection,
            Figure.ofToolpath? path style.width style.height style .identity = .ok figure ∧
              RingMaker.objection? figure.drawing.outline = some objection) := by
  constructor
  · rintro ⟨e, h, hquiet⟩
    rcases bind_eq_error_iff.mp h with h | ⟨bytes, hbytes, h⟩
    · obtain ⟨_, -, rfl⟩ := mapError_eq_error_iff.mp h
      cases hquiet
    rcases bind_eq_error_iff.mp h with h | ⟨path, hpath, h⟩
    · obtain ⟨_, -, rfl⟩ := mapError_eq_error_iff.mp h
      cases hquiet
    refine ⟨bytes, path, mapError_eq_ok_iff.mp hbytes, mapError_eq_ok_iff.mp hpath, ?_⟩
    rcases bind_eq_error_iff.mp h with h | ⟨figure, hfigure, h⟩
    · -- Of the ways not to be drawn only sides that are no floats are quiet.
      obtain ⟨failure, hfigure, rfl⟩ := mapError_eq_error_iff.mp h
      rcases failure with e | _ | _ | _
      · have hsides := (Figure.ofSegments?_eq_number_iff hstyle _ _ _).mp hfigure
        have he : e = .tooLarge := hsides.elim wholeFloat?_eq_error wholeFloat?_eq_error
        exact Or.inl (he ▸ hsides)
      all_goals cases hquiet
    rcases bind_eq_error_iff.mp h with h | ⟨⟨⟩, -, h⟩
    · obtain ⟨objection, hring, rfl⟩ := mapError_eq_error_iff.mp h
      exact Or.inr ⟨figure, objection, mapError_eq_ok_iff.mp hfigure,
        Figure.checkOutline?_eq_error_iff.mp hring⟩
    rcases bind_eq_error_iff.mp h with h | ⟨_, -, h⟩
    · obtain ⟨_, hfile, rfl⟩ := mapError_eq_error_iff.mp h
      rw [id, isTold_of_pictureFile? hfile] at hquiet
      cases hquiet
    · rcases bind_eq_error_iff.mp h with h | ⟨_, -, ⟨⟩⟩
      obtain ⟨_, hsize, rfl⟩ := mapError_eq_error_iff.mp h
      rw [id, isTold_of_checkPicture? hsize] at hquiet
      cases hquiet
  · rintro ⟨bytes, path, rfl, hpath, hlarge | ⟨figure, objection, hfigure, hring⟩⟩
    · have hfigure :=
        (Figure.ofSegments?_eq_number_iff hstyle path.segments path.bounds .identity).mpr hlarge
      refine ⟨.figure (.number .tooLarge), ?_, rfl⟩
      simp only [of?, mapError_ok, ok_bind, hpath, Figure.ofToolpath?, hfigure, mapError_error,
        error_bind]
    · have hcheck := Figure.checkOutline?_eq_error_iff.mpr hring
      refine ⟨.outline objection, ?_, rfl⟩
      simp only [of?, mapError_ok, ok_bind, hpath, hfigure, hcheck, mapError_error, error_bind]

/-! ## Requests -/

theorem GlobalArguments.isPlain_of_load? [DocumentReader] {g : GlobalArguments} {d : Disk}
    (h : g.load? d = .ok c) : c.preview.IsPlain := by
  rw [load?] at h
  split at h
  · obtain ⟨_, _, _, -, -, h⟩ := Config.exists_of_ofFile? h
    exact Config.isPlain_of_ofDocument? h
  · cases h
  · cases h
    exact PreviewStyle.isPlain_standard

/-- The sides of a surface may be given on the command line, the rest of its style may not. -/
theorem GlobalArguments.isPlain_override [DocumentReader] {g : GlobalArguments} {d : Disk}
    (h : g.load? d = .ok c) (a : PreviewArguments) : (a.override c.preview).IsPlain :=
  have hplain := isPlain_of_load? h
  ⟨hplain.padding, hplain.dpi⟩

section

variable [DocumentReader] [PictureDecoder] [RingMaker] {r : Request} {d : Disk}

theorem Request.escapes_of_outcome (hlimited : PictureDecoder.IsLimited) {e : RunError} {d' : Disk}
    (h : r.outcome d = (.error e, d')) (hquiet : e.isTold = false) : r.Escapes d := by
  rcases r with ⟨g, command⟩
  rw [Request.outcome] at h
  rcases hload : g.load? d with failure | c <;> simp only [hload] at h
  · cases h
    exact .config hload (Option.isNone_iff_eq_none.mp (Option.isSome_eq_false_iff.mp hquiet))
  rcases command with ⟨image, a⟩ | ⟨program, a⟩ <;> simp only [Command.outcome] at h
  · rcases hmake : Draft.of? (d.read image) (a.override c) with failure | draft <;>
      simp only [hmake] at h
    · cases h
      obtain ⟨bytes, hread, ⟨failure, hpicture, hcaught⟩ | ⟨grid, s, hgrid, hs, hpower, hrate,
          hlarge⟩⟩ := (Draft.exists_error_iff hlimited).mp ⟨e, hmake, hquiet⟩
      · exact .picture hload hread hpicture hcaught
      · exact .feedRate hload hread hgrid hs hpower hrate hlarge
    · obtain ⟨-, failure, rfl⟩ | ⟨hwrite, hendless⟩ :=
        Draft.outcome_eq_error (Draft.isMeasured hmake) h
      · cases hquiet
      · exact .duration ⟨hload, hmake, hwrite, hendless⟩
  · rcases hmake : Sketch.of? (d.read program) a.output (a.override c.preview) with
      failure | sketch <;> simp only [hmake] at h
    · cases h
      obtain ⟨bytes, path, hread, hparse, hlarge | ⟨figure, objection, hdraw, hring⟩⟩ :=
        (Sketch.exists_error_iff (GlobalArguments.isPlain_override hload a) a.output).mp
          ⟨e, hmake, hquiet⟩
      · exact .surface hload hread hparse hlarge
      · exact .outline hload hread hparse hdraw hring
    · obtain ⟨-, failure, rfl⟩ := Sketch.outcome_eq_error h
      cases hquiet

theorem exists_outcome_of_draft {g : GlobalArguments} {image : String} {a : CompileArguments}
    (hload : g.load? d = .ok c)
    (h : ∃ e, Draft.of? (d.read image) (a.override c) = .error e ∧ e.isTold = false) :
    ∃ e d', Request.outcome ⟨g, .compile image a⟩ d = (.error e, d') ∧ e.isTold = false := by
  obtain ⟨e, hmake, hquiet⟩ := h
  refine ⟨e, d, ?_, hquiet⟩
  simp only [Request.outcome, hload, Command.outcome, hmake]

theorem exists_outcome_of_sketch {g : GlobalArguments} {program : String} {a : PreviewArguments}
    (hload : g.load? d = .ok c)
    (h : ∃ e, Sketch.of? (d.read program) a.output (a.override c.preview) = .error e ∧
      e.isTold = false) :
    ∃ e d', Request.outcome ⟨g, .preview program a⟩ d = (.error e, d') ∧ e.isTold = false := by
  obtain ⟨e, hmake, hquiet⟩ := h
  refine ⟨e, d, ?_, hquiet⟩
  simp only [Request.outcome, hload, Command.outcome, hmake]

theorem Request.Escapes.exists_outcome (hlimited : PictureDecoder.IsLimited) (h : r.Escapes d) :
    ∃ e d', r.outcome d = (.error e, d') ∧ e.isTold = false := by
  cases h with
  | @config r e hload hlawful =>
    refine ⟨.config e, d, by simp only [Request.outcome, hload], ?_⟩
    rw [RunError.isTold, hlawful]
    rfl
  | picture hload hread hpicture hcaught =>
    exact exists_outcome_of_draft hload
      ((Draft.exists_error_iff hlimited).mpr ⟨_, hread, Or.inl ⟨_, hpicture, hcaught⟩⟩)
  | feedRate hload hread hgrid hs hpower hrate hlarge =>
    exact exists_outcome_of_draft hload ((Draft.exists_error_iff hlimited).mpr
      ⟨_, hread, Or.inr ⟨_, _, hgrid, hs, hpower, hrate, hlarge⟩⟩)
  | duration hoverrun => exact ⟨_, _, hoverrun.outcome, rfl⟩
  | @surface _ _ a _ _ _ hload hread hparse hlarge =>
    exact exists_outcome_of_sketch hload ((Sketch.exists_error_iff
      (GlobalArguments.isPlain_override hload a) a.output).mpr ⟨_, _, hread, hparse, Or.inl hlarge⟩)
  | @outline _ _ a _ _ _ _ _ hload hread hparse hdraw hring =>
    exact exists_outcome_of_sketch hload ((Sketch.exists_error_iff
      (GlobalArguments.isPlain_override hload a) a.output).mpr
        ⟨_, _, hread, hparse, Or.inr ⟨_, _, hdraw, hring⟩⟩)

theorem Request.exists_outcome_iff (hlimited : PictureDecoder.IsLimited) :
    (∃ e d', r.outcome d = (.error e, d') ∧ e.isTold = false) ↔ r.Escapes d := by
  refine ⟨?_, fun h ↦ h.exists_outcome hlimited⟩
  rintro ⟨e, d', houtcome, hquiet⟩
  exact escapes_of_outcome hlimited houtcome hquiet

end

/-! ## Runs -/

variable {threshold : LogLevel} {records : List LogRecord}

theorem not_exists_error (h : IsQuiet records) :
    ¬ ∃ r ∈ (records.filter fun r ↦ threshold.passes r.level).reverse, r.level = .error := by
  rintro ⟨r, hr, hlevel⟩
  exact h r (List.mem_filter.mp (List.mem_reverse.mp hr)).1 hlevel

theorem exists_error (message : String) :
    ∃ r ∈ ((records ++ [(⟨.error, message⟩ : LogRecord)]).filter
      fun r ↦ threshold.passes r.level).reverse, r.level = .error := by
  refine ⟨⟨.error, message⟩, List.mem_reverse.mpr (List.mem_filter.mpr ⟨?_, ?_⟩), rfl⟩
  · exact List.mem_append_right _ List.mem_cons_self
  · exact threshold.passes_error

/-- **Which failures are told.** Whatever the command line, the files and the libraries, a run of a
request stops without an exit code exactly when the request escapes. Otherwise its exit code is zero
or one, and it is one exactly when an error was told in the run. -/
theorem reports_of_runOn [DocumentReader] [PictureDecoder] [RingMaker]
    (hlimited : PictureDecoder.IsLimited) {words : List String} {r : Request} {w v : Workbench}
    {outcome : Except RunError ℕ} (hwords : Request.ofWords? words = .ok r)
    (hrun : runOn words w = (outcome, v)) :
    ((∃ e, outcome = .error e) ↔ r.Escapes w.disk) ∧
      (¬ r.Escapes w.disk → outcome = .ok 0 ∨ outcome = .ok 1) ∧
      ∃ told, v.told = told ++ w.told ∧
        (outcome = .ok 1 ↔ ∃ record ∈ told, record.level = .error) := by
  obtain ⟨records, start, hquiet, heq⟩ := exists_runOn_eq hwords w
  rw [heq] at hrun
  rw [← Request.exists_outcome_iff hlimited]
  rcases houtcome : r.outcome w.disk with ⟨e | ⟨⟩, disk⟩ <;> simp only [houtcome] at hrun
  · by_cases htold : e.isTold
    · rw [if_pos htold] at hrun
      cases hrun
      refine ⟨iff_of_false (by rintro ⟨_, ⟨⟩⟩) ?_, fun _ ↦ Or.inr rfl, _, rfl,
        iff_of_true rfl (exists_error _)⟩
      rintro ⟨_, _, ⟨⟩, hquiet⟩
      rw [htold] at hquiet
      cases hquiet
    · rw [if_neg htold] at hrun
      cases hrun
      have hescapes : ∃ e' d', ((.error e, disk) : Except RunError Unit × Disk) = (.error e', d') ∧
          e'.isTold = false := ⟨e, disk, rfl, Bool.not_eq_true _ ▸ htold⟩
      exact ⟨iff_of_true ⟨e, rfl⟩ hescapes, fun h ↦ absurd hescapes h, _, rfl,
        iff_of_false (by rintro ⟨⟩) (not_exists_error hquiet)⟩
  · cases hrun
    exact ⟨iff_of_false (by rintro ⟨_, ⟨⟩⟩) (by rintro ⟨_, _, ⟨⟩, _⟩), fun _ ↦ Or.inl rfl, _, rfl,
      iff_of_false (by rintro ⟨⟩) (not_exists_error hquiet)⟩

/-- A directory in the place of the configuration stops a run, and nothing is told. -/
theorem reports_of_runOn_directory :
    ∃ r e v, Request.ofWords? ["--config", ".", "compile", "dot.pgm"] = .ok r ∧
      runOn ["--config", ".", "compile", "dot.pgm"] .dot = (.error e, v) ∧
      r.Escapes Workbench.dot.disk ∧ ¬ ∃ record ∈ v.told, record.level = .error := by
  have hnone : (runOn ["--config", ".", "compile", "dot.pgm"] .dot).1.toOption = none := by
    decide +kernel
  have hwords : Request.ofWords? ["--config", ".", "compile", "dot.pgm"]
      = .ok ⟨{ config? := some "." }, .compile "dot.pgm" {}⟩ := rfl
  rcases hrun : runOn ["--config", ".", "compile", "dot.pgm"] .dot with ⟨e | n, v⟩
  · obtain ⟨hescapes, -, told, htold, hreported⟩ :=
      reports_of_runOn isLimited_decode hwords hrun
    refine ⟨_, e, v, hwords, rfl, hescapes.mp ⟨e, rfl⟩, ?_⟩
    rw [htold, show Workbench.dot.told = [] from rfl, List.append_nil, ← hreported]
    rintro ⟨⟩
  · rw [hrun] at hnone
    cases hnone

end CommandLine

end Engraving
