import Engraving.CommandLine.Run
import Engraving.Proofs.CommandLine.Compilation
import Engraving.Proofs.CommandLine.Uptake
import Engraving.Proofs.Config.Origin

/-!
# What settles an engraving

A run finds the settings of an engraving in three places: among the words of the command line, in a
configuration file, and in the defaults. `Settles` says for each setting where it is looked for, by
the phrases that the words are read as and by the entries of the document in the file. A run that
comes to its end has written what a job with these settings makes of the image.

An option sets one setting and leaves the others as they are. So each setting of the arguments is
what the last value of its option is read as.
-/

namespace Engraving

open Document

namespace CommandLine

/-! ## Settings that options set -/

section

variable {σ α β : Type} {options : Options σ} {phrases : List Phrase} {name : String} {s t : σ}

namespace Effect

/-- An option leaves a setting as it is. -/
def Keeps (effect : Effect σ) (get : σ → α) : Prop :=
  match effect with
  | .switch put => ∀ s, get (put s) = get s
  | .value put? => ∀ text s, (put? text s).map get = (put? text s).map fun _ ↦ get s
  | .help => True

/-- An option sets a setting to what its value is read as. -/
def Sets (effect : Effect σ) (get : σ → α) (read : String → Option α) : Prop :=
  match effect with
  | .value put? => ∀ text s, (put? text s).map get = read text
  | _ => False

/-- An option without a value makes a setting true. -/
def TurnsOn (effect : Effect σ) (get : σ → Bool) : Prop :=
  match effect with
  | .switch put => ∀ s, get (put s) = true
  | _ => False

theorem Keeps.eq_of_eq_some {get : σ → α} {put? : String → σ → Option σ} {text : String}
    (h : (Effect.value put?).Keeps get) (hput : put? text s = some t) : get t = get s := by
  have hmap := h text s
  rw [hput] at hmap
  exact Option.some.inj hmap

end Effect

/-- A setting is what the last value of its option is read as. -/
theorem Applies.isSaid {get : σ → α} {read : String → Option α}
    (hoptions : ∀ option ∈ options,
      if option.1 = name then option.2.Sets get read else option.2.Keeps get)
    (h : Applies options phrases s t) : IsSaid phrases name read (· = get s) (get t) := by
  induction h with
  | nil => exact rfl
  | operand _ ih => exact ih
  | @switch other put phrases s t mem _ ih =>
    have heffect := hoptions _ mem
    split at heffect
    · cases heffect
    · rw [← heffect s]
      exact ih
  | @value other text put? phrases s r t mem put _ ih =>
    have heffect := hoptions _ mem
    rw [IsSaid, lastValue?]
    rw [IsSaid] at ih
    rcases hlast : lastValue? name phrases with _ | later
    · rw [hlast] at ih
      split at heffect
      · next heq =>
        rw [if_pos heq, Option.none_or]
        change read text = _
        rw [← heffect text s, put, Option.map_some]
        exact congrArg some ih.symm
      · next hne =>
        rw [if_neg hne, Option.none_or]
        exact ih.trans (heffect.eq_of_eq_some put)
    · rw [hlast] at ih
      exact ih

/-- A switch is on when it was, or when it is among the phrases. -/
theorem Applies.isOn_iff {get : σ → Bool}
    (hoptions : ∀ option ∈ options,
      if option.1 = name then option.2.TurnsOn get else option.2.Keeps get)
    (h : Applies options phrases s t) : get t = true ↔ get s = true ∨ .switch name ∈ phrases := by
  induction h with
  | nil => simp
  | operand _ ih => simpa using ih
  | @switch other put phrases s t mem _ ih =>
    have heffect := hoptions _ mem
    split at heffect
    · next heq =>
      subst heq
      simp [ih, heffect s]
    · next hne =>
      rw [ih, heffect s, List.mem_cons, Phrase.switch.injEq, or_iff_right (Ne.symm hne)]
  | @value other text put? phrases s r t mem put _ ih =>
    have heffect := hoptions _ mem
    split at heffect
    · cases heffect
    · rw [ih, heffect.eq_of_eq_some put]
      simp

end

/-- A setting that is said on the command line goes before one that is settled otherwise. -/
theorem IsSaid.getD {α : Type} {phrases : List Phrase} {name : String} {read : String → Option α}
    {a? : Option α} (h : IsSaid phrases name (fun text ↦ (read text).map some) (· = none) a?) {a : α}
    {otherwise : α → Prop} (hotherwise : otherwise a) :
    IsSaid phrases name read otherwise (a?.getD a) := by
  rw [IsSaid] at h ⊢
  rcases hlast : lastValue? name phrases with _ | text
  · rw [hlast] at h
    rw [h]
    exact hotherwise
  · rw [hlast] at h
    obtain ⟨b, hread, rfl⟩ := Option.map_eq_some_iff.mp h
    exact hread

/-! ## Arguments -/

/-- What is said for all commands. -/
structure GlobalArguments.IsWorded (phrases : List Phrase) (g : GlobalArguments) : Prop where
  config : IsSaid phrases "--config" (fun text ↦ some (some (normalPath text))) (· = none) g.config?
  profile : IsSaid phrases "--laser-profile" (fun text ↦ some (some text)) (· = none) g.profile?
  threshold : IsSaid phrases "--log-level" LogLevel.ofName? (· = .info) g.threshold

theorem GlobalArguments.isWorded {phrases : List Phrase} {g : GlobalArguments}
    (h : Applies options phrases {} g) : g.IsWorded phrases := by
  constructor
  all_goals
    refine h.isSaid ?_
    simp [options, pathOption, textOption, Effect.Sets, Effect.Keeps, Function.comp_def]

/-- What is said about compiling. -/
structure CompileArguments.IsWorded (phrases : List Phrase) (a : CompileArguments) : Prop where
  output : IsSaid phrases "--output" (fun text ↦ some (normalPath text))
    (· = "output.gcode") a.output
  width : IsSaid phrases "--width-mm" (fun text ↦ (readFloat? text.toList).map some)
    (· = none) a.width?
  height : IsSaid phrases "--height-mm" (fun text ↦ (readFloat? text.toList).map some)
    (· = none) a.height?
  startX : IsSaid phrases "--start-x" (fun text ↦ (readFloat? text.toList).map some)
    (· = none) a.startX?
  startY : IsSaid phrases "--start-y" (fun text ↦ (readFloat? text.toList).map some)
    (· = none) a.startY?
  maxPower : IsSaid phrases "--max-power" (fun text ↦ (readWhole? 10 text.toList).toOption.map some)
    (· = none) a.maxPower?
  feedRate : IsSaid phrases "--feed-rate" (fun text ↦ (readWhole? 10 text.toList).toOption.map some)
    (· = none) a.feedRate?
  invert : a.invert = true ↔ .switch "--invert" ∈ phrases
  optimize : a.optimize = true ↔ .switch "--optimize" ∈ phrases

theorem CompileArguments.isWorded {phrases : List Phrase} {a : CompileArguments}
    (h : Applies options phrases {} a) : a.IsWorded phrases := by
  constructor
  case invert =>
    refine (h.isOn_iff ?_).trans (or_iff_right nofun)
    simp [options, pathOption, realOption, wholeOption, Effect.TurnsOn, Effect.Keeps,
      Function.comp_def]
  case optimize =>
    refine (h.isOn_iff ?_).trans (or_iff_right nofun)
    simp [options, pathOption, realOption, wholeOption, Effect.TurnsOn, Effect.Keeps,
      Function.comp_def]
  all_goals
    refine h.isSaid ?_
    simp [options, pathOption, realOption, wholeOption, Effect.Sets, Effect.Keeps,
      Function.comp_def]

theorem exists_of_command? {name image : String} {words : List String} {surplus : Bool}
    {a : CompileArguments} (h : command? name words = .ok (surplus, .compile image a)) :
    name = "compile" ∧ ∃ items q path, items? CompileArguments.options words = .ok items ∧
      Progress.all? { settings := {} } items = .ok (q, path) ∧ image = normalPath path ∧
      q.surplus = surplus ∧ q.settings = a := by
  unfold command? at h
  split at h
  · obtain ⟨items, hitems, h⟩ := bind_eq_ok_iff.mp h
    obtain ⟨⟨q, path⟩, hall, h⟩ := bind_eq_ok_iff.mp h
    cases h
    exact ⟨rfl, items, q, path, hitems, hall, rfl, rfl, rfl⟩
  · obtain ⟨items, hitems, h⟩ := bind_eq_ok_iff.mp h
    obtain ⟨⟨q, path⟩, hall, h⟩ := bind_eq_ok_iff.mp h
    cases h
  · cases h

/-- What a command line for compiling comes to is what its phrases say. -/
theorem exists_saysCompile {words : List String} {g : GlobalArguments} {image : String}
    {a : CompileArguments} (h : Request.ofWords? words = .ok ⟨g, .compile image a⟩) :
    ∃ general own path, SaysCompile words general own ∧ g.IsWorded general ∧ a.IsWorded own ∧
      operands own = [path] ∧ image = normalPath path := by
  obtain ⟨items, hitems, h⟩ := bind_eq_ok_iff.mp h
  obtain ⟨⟨p, name, rest⟩, hleading, h⟩ := bind_eq_ok_iff.mp h
  obtain ⟨⟨surplus, command⟩, hcommand, h⟩ := bind_eq_ok_iff.mp h
  simp only at h
  split_ifs at h with hsurplus
  cases h
  rw [Bool.or_eq_true, not_or, Bool.not_eq_true, Bool.not_eq_true] at hsurplus
  obtain ⟨before, general, hsplit, hseparator, hgeneral, happlies, hnone⟩ :=
    says_of_leading? hitems hleading hsurplus.1
  obtain ⟨rfl, items, q, path, hitems, hall, rfl, rfl, rfl⟩ := exists_of_command? hcommand
  obtain ⟨own, hown, hchanges, hoperand⟩ := says_of_all? hitems hall hsurplus.2
  exact ⟨general, own, path, ⟨hsplit, hgeneral, hseparator, hnone, hown⟩,
    GlobalArguments.isWorded happlies, CompileArguments.isWorded hchanges, hoperand, rfl⟩

/-! ## Configurations -/

/-- The configuration that is asked for, by the entries of its laser and of its layout: those of a
file, or none. -/
inductive Configures [DocumentReader] (d : Disk) (general : List Phrase) :
    Store → Entries → Entries → Prop
  | standard (store : Store) (unconfigured : lastValue? "--config" general = none)
    (unasked : lastValue? "--laser-profile" general = none) : Configures d general store [] []
  | file {path : String} {bytes : List UInt8} {document laser : Document} {store : Store}
    {entries settings layout : Entries} (given : lastValue? "--config" general = some path)
    (read : d.read (normalPath path) = .ok bytes)
    (parse : DocumentReader.document? bytes = .ok (document, store))
    (root : (document.resolve store).entries? store = some entries)
    (chosen : IsChosen store (lastValue? "--laser-profile" general) entries laser)
    (mapping : laser.entries? store = some settings)
    (part : IsSection store entries "engraving" layout) :
    Configures d general store settings layout

theorem IsSaid.eq_map {α : Type} {phrases : List Phrase} {name : String} {wrap : String → α}
    {a? : Option α} (h : IsSaid phrases name (fun text ↦ some (some (wrap text))) (· = none) a?) :
    a? = (lastValue? name phrases).map wrap := by
  rw [IsSaid] at h
  rcases hlast : lastValue? name phrases with _ | text
  · rw [hlast] at h
    exact h
  · rw [hlast] at h
    exact (Option.some.inj h).symm

/-- A configuration that is loaded has its settings from the entries that are asked for. -/
theorem exists_configures [DocumentReader] {general : List Phrase} {g : GlobalArguments}
    {d : Disk} {c : Config} (hg : g.IsWorded general) (h : g.load? d = .ok c) :
    ∃ store laser layout, Configures d general store laser layout ∧
      c.IsDescribed store laser layout := by
  rw [GlobalArguments.load?, hg.config.eq_map, hg.profile.eq_map] at h
  rcases hconfig : lastValue? "--config" general with _ | path
  · rcases hprofile : lastValue? "--laser-profile" general with _ | name
    · rw [hconfig, hprofile] at h
      cases h
      exact ⟨#[], [], [], .standard _ hconfig hprofile, Config.isDescribed_standard _⟩
    · rw [hconfig, hprofile] at h
      cases h
  · rw [hconfig] at h
    obtain ⟨bytes, document, store, hread, hparse, h⟩ := Config.exists_of_ofFile? h
    obtain ⟨entries, laser, settings, layout, hroot, hchosen, hsettings, hlayout, hc⟩ :=
      Config.exists_isDescribed h
    rw [Option.map_id'] at hchosen
    exact ⟨store, settings, layout, .file hconfig hread hparse hroot hchosen hsettings hlayout, hc⟩

/-! ## Jobs -/

/-- The settings of a job: each is said on the command line, or else entered in the configuration,
or else the standard one. -/
structure Settles (own : List Phrase) (store : Store) (laser layout : Entries) (job : Job) :
    Prop where
  width : ∃ x, job.width = .real x ∧ IsSaid own "--width-mm" (readFloat? ·.toList)
    (IsEntered layout "width_mm" toReal? (· = 30)) x
  height : ∃ x, job.height = .real x ∧ IsSaid own "--height-mm" (readFloat? ·.toList)
    (IsEntered layout "height_mm" toReal? (· = 30)) x
  startX : ∃ x, job.startX = .real x ∧ IsSaid own "--start-x" (readFloat? ·.toList)
    (IsEntered layout "start_x_mm" toReal? (· = 0)) x
  startY : ∃ x, job.startY = .real x ∧ IsSaid own "--start-y" (readFloat? ·.toList)
    (IsEntered layout "start_y_mm" toReal? (· = 0)) x
  maxPower : ∃ n, job.maxPower = .whole n ∧
    IsSaid own "--max-power" (readWhole? 10 ·.toList |>.toOption)
    (IsEntered laser "max_power_percent" toWhole? (· = 100)) n
  feedRate : ∃ n, job.feedRate = .whole n ∧
    IsSaid own "--feed-rate" (readWhole? 10 ·.toList |>.toOption)
    (IsEntered laser "feed_rate_mm_min" toWhole? (· = 1000)) n
  invert : job.invert = true ↔ .switch "--invert" ∈ own ∨ IsTrue store layout "invert"
  pass : job.pass = .coalesce ↔
    .switch "--optimize" ∈ own ∨ IsTrue store layout "coalesce_power_runs"

theorem settles_job {own : List Phrase} {store : Store} {laser layout : Entries}
    {a : CompileArguments} {c : Config} (ha : a.IsWorded own)
    (hc : c.IsDescribed store laser layout) : Settles own store laser layout (a.job c) where
  width := ⟨_, rfl, ha.width.getD hc.width⟩
  height := ⟨_, rfl, ha.height.getD hc.height⟩
  startX := ⟨_, rfl, ha.startX.getD hc.startX⟩
  startY := ⟨_, rfl, ha.startY.getD hc.startY⟩
  maxPower := ⟨_, rfl, ha.maxPower.getD hc.maxPower⟩
  feedRate := ⟨_, rfl, ha.feedRate.getD hc.feedRate⟩
  invert := by
    rw [← ha.invert, ← hc.invert, CompileArguments.job, Bool.or_eq_true]
  pass := by
    rw [← ha.optimize, ← hc.coalesce, CompileArguments.job, ← Bool.or_eq_true]
    split_ifs with h
    · exact iff_of_true rfl h
    · exact iff_of_false nofun h

/-! ## Finished runs -/

/-- A run from one workbench to another has written the program of a job, whose settings are settled
by what is said and by the configuration that is asked for, and has told how many lines it has. -/
inductive Compiles [DocumentReader] [PictureDecoder] (general own : List Phrase) (w v : Workbench) :
    Prop
  | intro {store : Store} {laser layout : Entries} {job : Job} {image : String}
    {bytes : List UInt8} {program output : String} {threshold : LogLevel}
    (configures : Configures w.disk general store laser layout)
    (settles : Settles own store laser layout job)
    (operand : operands own = [image])
    (read : w.disk.read (normalPath image) = .ok bytes)
    (compiled : job.programOfImage? bytes = .ok program)
    (goes : IsSaid own "--output" (fun text ↦ some (normalPath text)) (· = "output.gcode") output)
    (written : v.disk = { w.disk with written := (output, .text program) :: w.disk.written })
    (passes : IsSaid general "--log-level" LogLevel.ofName? (· = .info) threshold)
    (told : ∃ sampled converting travel, v.told = Workbench.told (w.tell threshold
      [⟨.debug, sampled⟩, ⟨.info, converting⟩,
        ⟨.info, "Wrote " ++ toString (lines program.toList).length ++ " G-code lines to " ++ output⟩,
        ⟨.info, travel⟩]))

variable {words : List String} {g : GlobalArguments} {image : String} {a : CompileArguments}
  {c : Config} {w v : Workbench}

/-- **What a finished run has written.** Whatever the words, the configuration file, the image and
the libraries, the words of a run that succeeds have one reading, and it has written what the job
that they settle makes of the image, and nothing else. -/
theorem compiles_of_runOn [DocumentReader] [PictureDecoder] [RingMaker]
    (hwords : Request.ofWords? words = .ok ⟨g, .compile image a⟩)
    (hrun : runOn words w = (.ok 0, v)) :
    (∃ general own, SaysCompile words general own) ∧
      ∀ general own, SaysCompile words general own → Compiles general own w v := by
  obtain ⟨general, own, path, hphrases, hg, ha, hoperand, rfl⟩ := exists_saysCompile hwords
  refine ⟨⟨general, own, hphrases⟩, fun general' own' hphrases' ↦ ?_⟩
  -- Whatever phrases the words are read as, they are the ones that were taken up.
  obtain ⟨rfl, rfl⟩ := hphrases.unique hphrases'
  obtain ⟨c, hload, hperform⟩ := exists_of_runOn hwords hrun
  obtain ⟨draft, travel, hdraft, hwritten, htold⟩ := exists_of_run_compileImage hperform
  obtain ⟨bytes, hbytes, hprogram, hcount⟩ := Draft.exists_of_of? hdraft
  obtain ⟨store, laser, layout, hconfigures, hdescribed⟩ := exists_configures hg hload
  rw [jobOf_override] at hprogram
  rw [Draft.writtenRecord, ← hcount] at htold
  exact .intro hconfigures (settles_job ha hdescribed) hoperand hbytes hprogram ha.output hwritten
    hg.threshold ⟨_, _, travel, htold⟩

/-- A workbench with a picture of one black pixel and a configuration. -/
def Workbench.configured : Workbench where
  disk := {
    files := [("dot.pgm", [80, 53, 32, 49, 32, 49, 32, 50, 53, 53, 10, 0]),
      ("laser.yaml", Utf8.encode
        "laser: {max_power_percent: 80, feed_rate_mm_min: 500}\nengraving: {width_mm: 5}".toList)] }

/-- An option may be cut short, and its value may be attached. -/
theorem compiles_of_runOn_configured : ∃ v,
    runOn ["--config", "laser.yaml", "compile", "dot.pgm", "--max-power=0", "--opt"] .configured
      = (.ok 0, v) ∧
    Compiles [.value "--config" "laser.yaml"]
      [.operand "dot.pgm", .value "--max-power" "0", .switch "--optimize"] .configured v := by
  have hok : (runOn ["--config", "laser.yaml", "compile", "dot.pgm", "--max-power=0", "--opt"]
      .configured).1.toOption = some 0 := by decide +kernel
  rcases hrun : runOn ["--config", "laser.yaml", "compile", "dot.pgm", "--max-power=0", "--opt"]
    .configured with ⟨_ | n, v⟩
  all_goals
    rw [hrun] at hok
    cases hok
  refine ⟨v, rfl, (compiles_of_runOn rfl hrun).2 _ _ ?_⟩
  have hexact {v : Vocabulary} {name : String} (hhyphens : ['-', '-'] <+: name.toList)
      (hplain : '=' ∉ name.toList) (hmem : name ∈ v.names) : v.Names name name :=
    ⟨hhyphens, hplain, Or.inl ⟨rfl, hmem⟩⟩
  have hshort : compileVocabulary.Names "--opt" "--optimize" := by
    refine ⟨by decide, by decide, Or.inr ⟨by decide, fun other ↦ ⟨?_, ?_⟩⟩⟩
    · rintro ⟨hmem, hprefix⟩
      revert other
      decide
    · rintro rfl
      decide
  have hgeneral : Says generalVocabulary ["--config", "laser.yaml"]
      [.value "--config" "laser.yaml"] :=
    .spaced (hexact (by decide) (by decide) (by decide)) (by decide) (by decide) trivial .nil
  have hown : Says compileVocabulary ["dot.pgm", "--max-power=0", "--opt"]
      [.operand "dot.pgm", .value "--max-power" "0", .switch "--optimize"] :=
    .operand trivial (.attached rfl (hexact (by decide) (by decide) (by decide)) (by decide)
      (.switch hshort (by decide) (by decide) .nil))
  exact ⟨rfl, hgeneral, by decide, rfl, hown⟩

end CommandLine

end Engraving
