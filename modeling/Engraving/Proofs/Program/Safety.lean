import Engraving.Program.Job
import Engraving.Proofs.Program.Coalescing
import Engraving.Proofs.Program.LineText

/-!
# Laser safety of programs

The laser is enabled once and disabled once, and the head moves along and between rows only in
between. This is said of the lines of the finished text, so that it covers remarks, the settings
that are written into them, and what a pass makes of the lines.

Every program is five pieces: what prepares it, the place where the head is put, the two lines that
enable the laser and go over to relative coordinates, the scan, and the two closing lines. A pass
changes the scan alone, and all that matters of a line of the scan is which marks it may hold,
`IsScanText`.
-/

namespace Engraving

/-- The order of the commands in a program, and where powers are written. -/
structure LaserSafe (program : List (List Char)) : Prop where
  enabled : program.countP (Mentions "M4" ·) = 1
  disabled : program.countP (Mentions "M5" ·) = 1
  /-- Every move stands behind the line that enables the laser and before the one that disables
  it. -/
  moves : ∃ before on between off after, program = before ++ on :: (between ++ off :: after) ∧
    Mentions "M4" on ∧ Mentions "M5" off ∧ ∀ line ∈ before ++ on :: off :: after,
      ¬ Mentions "G1" line
  placed : program.countP (Mentions "G53" ·) = 1
  /-- The laser is not yet enabled then. -/
  placed_before : ∃ before place between on after,
    program = before ++ place :: (between ++ on :: after) ∧
      Mentions "G53" place ∧ Mentions "M4" on
  /-- Once the laser is enabled, and before the first move, coordinates become relative, and they
  are left alone until behind the last move. -/
  relative : ∃ before relative between after,
    program = before ++ relative :: (between ++ after) ∧
      Mentions "G91" relative ∧ (∃ on ∈ before, Mentions "M4" on) ∧
      (∀ line ∈ between, ¬ Mentions "G90" line ∧ ¬ Mentions "G91" line ∧ ¬ Mentions "G53" line) ∧
      ∀ line ∈ before ++ relative :: after, ¬ Mentions "G1" line
  restored : ∃ line ∈ program.getLast?, "G90".toList <+: line
  /-- Powers are written on moves along a row alone. -/
  powers : ∀ line ∈ program, ∀ d, isDigit d = true → ['S', d] <:+: line → "G1 X".toList <+: line

/-! ## Programs in five pieces -/

/-- A line that prepares the machine, before the head is put anywhere. -/
def IsSetupText (line : List Char) : Prop := marks line ⊆ [('G', '2'), ('G', '9')]

/-- A line that puts the head at a place of the machine. -/
structure IsPlaceText (line : List Char) : Prop where
  mentions : Mentions "G53" line
  marks_subset : marks line ⊆ [('G', '5'), ('G', '0')]

/-- A line of a scan, before or after a pass. -/
def IsScanText (line : List Char) : Prop :=
  ∀ mark ∈ marks line, mark = ('G', '1') ∨ mark.1 = 'S' ∧ "G1 X".toList <+: line

section silent

variable {a b : Char} {command : String} {rest line : List Char}
  (hcommand : command.toList = a :: b :: rest) (ha : isCommandLetter a = true)
  (hb : isDigit b = true)

include hcommand ha hb

theorem not_mentions {allowed : List (Char × Char)} (h : marks line ⊆ allowed)
    (hapart : (a, b) ∉ allowed) : ¬ Mentions command line :=
  fun hmentions ↦ hapart (h (mem_marks_of_mentions hcommand ha hb hmentions))

theorem IsScanText.not_mentions (h : IsScanText line) (hapart : (a, b) ≠ ('G', '1'))
    (hpower : a ≠ 'S') : ¬ Mentions command line := by
  intro hmentions
  rcases h _ (mem_marks_of_mentions hcommand ha hb hmentions) with heq | ⟨heq, -⟩
  · exact hapart heq
  · exact hpower heq

end silent

def programPieces (setup : List (List Char)) (place : List Char) (scan : List (List Char)) :
    List (List Char) :=
  setup ++ place :: ProgramLine.laserOn.text.toList :: ProgramLine.relative.text.toList ::
    (scan ++ [ProgramLine.laserOff.text.toList, ProgramLine.restoreAbsolute.text.toList])

section pieces

variable {setup scan : List (List Char)} {place : List Char}
  (hsetup : ∀ line ∈ setup, IsSetupText line) (hplace : IsPlaceText place)
  (hscan : ∀ line ∈ scan, IsScanText line)

include hsetup hscan in
/-- A command that occurs neither in the setup nor in the scan is counted on the lines between. -/
theorem countP_programPieces {a b : Char} {command : String} {rest : List Char}
    (hcommand : command.toList = a :: b :: rest) (ha : isCommandLetter a = true)
    (hb : isDigit b = true) (hapart : (a, b) ∉ [('G', '1'), ('G', '2'), ('G', '9')])
    (hpower : a ≠ 'S') :
    (programPieces setup place scan).countP (Mentions command ·)
      = (programPieces [] place []).countP (Mentions command ·) := by
  obtain ⟨hmove, hother⟩ := not_or.mp (mt List.mem_cons.mpr hapart)
  -- Neither the setup nor the scan holds the first two characters of the command.
  have hsetup_none : setup.countP (Mentions command ·) = 0 := by
    refine List.countP_eq_zero.mpr fun line hline ↦ ?_
    simpa using not_mentions hcommand ha hb (hsetup line hline) hother
  have hscan_none : scan.countP (Mentions command ·) = 0 := by
    refine List.countP_eq_zero.mpr fun line hline ↦ ?_
    simpa using (hscan line hline).not_mentions hcommand ha hb hmove hpower
  simp only [programPieces, List.countP_append, List.countP_cons, hsetup_none, hscan_none,
    List.countP_nil, List.nil_append, zero_add]

include hsetup hplace in
theorem not_move_of_mem_programPieces {line : List Char}
    (h : line ∈ programPieces setup place []) : ¬ Mentions "G1" line := by
  rw [programPieces, List.mem_append, List.mem_cons] at h
  rcases h with h | rfl | h
  · exact not_mentions rfl rfl rfl (hsetup line h) (by decide)
  · exact not_mentions rfl rfl rfl hplace.marks_subset (by decide)
  · revert line
    decide

include hsetup hplace hscan

theorem laserSafe_programPieces : LaserSafe (programPieces setup place scan) where
  enabled := by
    have hnot : ¬ Mentions "M4" place := not_mentions rfl rfl rfl hplace.marks_subset (by decide)
    rw [countP_programPieces hsetup hscan rfl rfl rfl (by decide) (by decide), programPieces,
      List.nil_append, List.countP_cons_of_neg (by simpa using hnot)]
    decide
  disabled := by
    have hnot : ¬ Mentions "M5" place := not_mentions rfl rfl rfl hplace.marks_subset (by decide)
    rw [countP_programPieces hsetup hscan rfl rfl rfl (by decide) (by decide), programPieces,
      List.nil_append, List.countP_cons_of_neg (by simpa using hnot)]
    decide
  moves := by
    refine ⟨setup ++ [place], ProgramLine.laserOn.text.toList,
      ProgramLine.relative.text.toList :: scan, ProgramLine.laserOff.text.toList,
      [ProgramLine.restoreAbsolute.text.toList], ?_, by decide, by decide, fun line hline ↦ ?_⟩
    · simp [programPieces]
    · rw [List.append_assoc, List.singleton_append] at hline
      refine not_move_of_mem_programPieces hsetup hplace (List.Sublist.subset ?_ hline)
      exact (List.Sublist.refl setup).append (.cons_cons _ (.cons_cons _ (.cons _ (.refl _))))
  placed := by
    rw [countP_programPieces hsetup hscan rfl rfl rfl (by decide) (by decide), programPieces,
      List.nil_append, List.countP_cons_of_pos (by simpa using hplace.mentions)]
    decide
  placed_before :=
    ⟨setup, place, [], ProgramLine.laserOn.text.toList, _, rfl, hplace.mentions, by decide⟩
  relative := by
    refine ⟨setup ++ [place, ProgramLine.laserOn.text.toList], ProgramLine.relative.text.toList,
      scan, [ProgramLine.laserOff.text.toList, ProgramLine.restoreAbsolute.text.toList], ?_,
      by decide, ⟨ProgramLine.laserOn.text.toList, by simp, by decide⟩,
      fun line hline ↦ ⟨?_, ?_, ?_⟩, fun line hline ↦ ?_⟩
    · simp [programPieces]
    · exact (hscan line hline).not_mentions rfl rfl rfl (by decide) (by decide)
    · exact (hscan line hline).not_mentions rfl rfl rfl (by decide) (by decide)
    · exact (hscan line hline).not_mentions rfl rfl rfl (by decide) (by decide)
    · refine not_move_of_mem_programPieces hsetup hplace ?_
      simpa [programPieces] using hline
  restored := by
    refine ⟨ProgramLine.restoreAbsolute.text.toList, ?_, by decide⟩
    simp [programPieces, List.getLast?_append, List.getLast?_cons]
  powers := by
    intro line hline d hd hpower
    have hmem := mem_marks_of_infix rfl hd hpower
    -- The fixed lines hold no power, and the other lines hold what their pieces allow.
    have hapart : ∀ line ∈ programPieces [] [] [], ∀ mark ∈ marks line, mark.1 ≠ 'S' := by decide
    simp only [programPieces, List.mem_append, List.mem_cons, List.not_mem_nil, or_false] at hline
    rcases hline with hline | rfl | rfl | rfl | hline | rfl | rfl
    · simpa using hsetup line hline hmem
    · simpa using hplace.marks_subset hmem
    · exact absurd rfl (hapart _ (by simp [programPieces]) _ hmem)
    · exact absurd rfl (hapart _ (by simp [programPieces]) _ hmem)
    · rcases hscan line hline _ hmem with heq | ⟨-, hprefix⟩
      · cases heq
      · exact hprefix
    · exact absurd rfl (hapart _ (by simp [programPieces]) _ hmem)
    · exact absurd rfl (hapart _ (by simp [programPieces]) _ hmem)

end pieces

/-! ## The pieces of a finished program -/

theorem ProgramLine.read?_text {line : ProgramLine}
    (h : ∀ delta power, line ≠ .burn delta power) : PowerMove.read? line.text.toList = none := by
  refine PowerMove.read?_eq_none ?_
  cases line with
  | burn delta power => exact absurd rfl (h delta power)
  | comment remark =>
    rw [text, String.toList_append]
    rfl
  | feedRate rate =>
    rw [text, String.toList_append, String.toList_append, List.append_assoc]
    rfl
  | place x y =>
    simp only [text, String.toList_append, List.append_assoc]
    rfl
  | advance delta =>
    rw [text, String.toList_append]
    rfl
  | _ => decide

namespace PostPass

/-- A line that is no move divides what a pass works on. -/
theorem apply_append_cons (pass : PostPass) (before after : List String) {text : String}
    (h : PowerMove.read? text.toList = none) :
    pass.apply (before ++ text :: after) = pass.apply before ++ text :: pass.apply after := by
  cases pass with
  | identity => rfl
  | coalesce => exact coalesce_append_cons before after h

theorem apply_cons (pass : PostPass) {text : String} (h : PowerMove.read? text.toList = none)
    (after : List String) : pass.apply (text :: after) = text :: pass.apply after := by
  cases pass with
  | identity => rfl
  | coalesce => exact coalesce_cons h after

theorem apply_eq_self (pass : PostPass) {lines : List String}
    (h : ∀ text ∈ lines, PowerMove.read? text.toList = none) : pass.apply lines = lines := by
  cases pass with
  | identity => rfl
  | coalesce => exact coalesce_eq_self h

theorem mem_or_isCoalesced (pass : PostPass) {lines : List String} {text : String}
    (h : text ∈ pass.apply lines) : text ∈ lines ∨ IsCoalesced lines text := by
  cases pass with
  | identity => exact Or.inl h
  | coalesce => exact Or.inr (isCoalesced_of_mem_coalesce h)

end PostPass

theorem IsCoalesced.isOneLine {lines : List String} {text : String} (h : IsCoalesced lines text)
    (hlines : ∀ t ∈ lines, IsOneLine t.toList) : IsOneLine text.toList := by
  cases h with
  | line hmem _ => exact hlines text hmem
  | move hmem length hread =>
    obtain ⟨-, hdigits⟩ := PowerMove.power_of_read? hread
    simp only [PowerMove.text, String.toList_append, String.toList_ofList]
    refine .append (.append (.append (by decide) (FixedPoint.isNumberText _).isOneLine) (by decide))
      fun c hc ↦ hlines _ hmem c (hdigits hc)

/-- A move that is written anew has the marks of a scan. -/
theorem isScanText_move {line : List Char} {m : PowerMove} {length : Float}
    (h : PowerMove.read? line = some { m with length }) : IsScanText m.text.toList := by
  -- The power was read as a run of digits, so that it holds no letter of a command.
  have hletters : ∀ d ∈ ['G', 'M', 'S'], isDigit d = false := by decide
  have hquiet : ∀ c ∈ m.power, isCommandLetter c = false := by
    intro c hc
    refine Bool.eq_false_of_not_eq_true fun hletter ↦ ?_
    have hdigit := (PowerMove.power_of_read? h).1.2 c hc
    rw [hletters c (List.contains_iff_mem.mp hletter)] at hdigit
    cases hdigit
  intro mark hmark
  rw [PowerMove.text, String.toList_append, String.toList_ofList] at hmark ⊢
  refine (ProgramLine.marks_text_burn _ hquiet hmark).imp_right fun hpower ↦ ⟨hpower, ?_⟩
  simp only [String.toList_append, List.append_assoc]
  exact List.prefix_append _ _

namespace Plan

variable {s : Setting Quantity} {grid : Grid} {startX startY : Quantity}
  (p : Plan s grid startX startY)

/-- The lines before the head is put anywhere. -/
def setup : List ProgramLine :=
  headerLines grid p.width p.height p.maxPower p.feedRate ++
    [.millimetres, .absolute, .feedRate p.rate]

/-- The lines that the rows are written on. -/
def scan : List ProgramLine := scanLines s.strides 0 true p.powers

theorem lines_eq : p.lines = p.setup ++ .place p.left p.top :: .laserOn :: .relative ::
    (p.scan ++ [.laserOff, .restoreAbsolute]) := by
  simp [lines, setup, scan, preambleLines, footerLines]

theorem mem_lines_of_mem_setup {line : ProgramLine} (h : line ∈ p.setup) : line ∈ p.lines := by
  rw [p.lines_eq]
  exact List.mem_append_left _ h

theorem mem_lines_of_mem_scan {line : ProgramLine} (h : line ∈ p.scan) : line ∈ p.lines := by
  rw [p.lines_eq]
  simp [h]

theorem mem_marks_text {line : ProgramLine} (hline : line ∈ p.lines) {mark : Char × Char}
    (h : mark ∈ marks line.text.toList) :
    mark ∈ line.marks ∨ mark.1 = 'S' ∧ ∃ delta power, line = .burn delta power :=
  ProgramLine.mem_marks_text (fun _ hremark ↦ p.isQuiet_remark (hremark ▸ hline)) h

theorem isSetupText {line : ProgramLine} (h : line ∈ p.setup) : IsSetupText line.text.toList := by
  intro mark hmark
  have hmem := p.mem_marks_text (p.mem_lines_of_mem_setup h) hmark
  simp only [setup, headerLines, List.mem_append, List.mem_cons, List.not_mem_nil, or_false] at h
  rcases h with (rfl | rfl | rfl | rfl) | rfl | rfl | rfl <;>
    simp_all [ProgramLine.marks]

theorem isPlaceText : IsPlaceText (ProgramLine.place p.left p.top).text.toList where
  mentions := by
    simp only [ProgramLine.text, String.toList_append, List.append_assoc]
    exact (List.prefix_append "G53".toList _).isInfix
  marks_subset := by
    intro mark hmark
    rcases p.mem_marks_text p.place_mem_lines hmark with hmem | ⟨-, _, _, ⟨⟩⟩
    exact hmem

theorem isScanText {line : ProgramLine} (h : line ∈ p.scan) : IsScanText line.text.toList := by
  intro mark hmark
  rcases p.mem_marks_text (p.mem_lines_of_mem_scan h) hmark with hmem | ⟨hpower, _, _, rfl⟩
  · refine Or.inl ?_
    cases isScanLine_of_mem_scanLines h with
    | comment y => cases hmem
    | right | left | down => exact List.mem_singleton.mp hmem
  · refine Or.inr ⟨hpower, ?_⟩
    simp only [ProgramLine.text, String.toList_append, List.append_assoc]
    exact List.prefix_append _ _

/-- What a pass does to a program it does to the scan. -/
theorem apply_texts (pass : PostPass) : pass.apply (p.lines.map ProgramLine.text)
    = p.setup.map ProgramLine.text ++ (ProgramLine.place p.left p.top).text ::
      ProgramLine.laserOn.text :: ProgramLine.relative.text ::
        (pass.apply (p.scan.map ProgramLine.text) ++
          [ProgramLine.laserOff.text, ProgramLine.restoreAbsolute.text]) := by
  have hsetup : pass.apply (p.setup.map ProgramLine.text) = p.setup.map ProgramLine.text := by
    refine pass.apply_eq_self fun text htext ↦ ?_
    obtain ⟨line, hline, rfl⟩ := List.mem_map.mp htext
    refine ProgramLine.read?_text ?_
    rintro _ _ rfl
    simp [setup, headerLines] at hline
  have hlast : pass.apply [ProgramLine.restoreAbsolute.text] = [ProgramLine.restoreAbsolute.text] :=
    pass.apply_eq_self (by simpa using ProgramLine.read?_text (by simp))
  rw [p.lines_eq]
  simp only [List.map_append, List.map_cons, List.map_nil]
  -- Each of the fixed lines is no move, and so cuts off what stands before it.
  rw [pass.apply_append_cons _ _ (ProgramLine.read?_text (by simp)), hsetup,
    pass.apply_cons (ProgramLine.read?_text (by simp)),
    pass.apply_cons (ProgramLine.read?_text (by simp)),
    pass.apply_append_cons _ _ (ProgramLine.read?_text (by simp)), hlast]

theorem isOneLine_of_mem_apply (pass : PostPass) {text : String}
    (h : text ∈ pass.apply (p.lines.map ProgramLine.text)) : IsOneLine text.toList := by
  have hlines : ∀ t ∈ p.lines.map ProgramLine.text, IsOneLine t.toList := by
    intro t ht
    obtain ⟨line, hline, rfl⟩ := List.mem_map.mp ht
    exact p.isOneLine_text hline
  exact (pass.mem_or_isCoalesced h).elim (hlines text) (·.isOneLine hlines)

/-- A line that a pass makes of the scan has the marks of a scan. -/
theorem isScanText_of_mem_apply (pass : PostPass) {text : String}
    (h : text ∈ pass.apply (p.scan.map ProgramLine.text)) : IsScanText text.toList := by
  have hkept {text : String} (h : text ∈ p.scan.map ProgramLine.text) :
      IsScanText text.toList := by
    obtain ⟨line, hline, rfl⟩ := List.mem_map.mp h
    exact p.isScanText hline
  rcases pass.mem_or_isCoalesced h with h | h
  · exact hkept h
  · cases h with
    | line hmem _ => exact hkept hmem
    | move _ _ hread => exact isScanText_move hread

end Plan

/-- The text of a program has the lines that are left after the pass. -/
theorem lines_program {s : Setting Quantity} {grid : Grid} {startX startY : Quantity}
    {w : Workpiece Quantity} (h : compile? s grid startX startY = .ok w) (pass : PostPass) :
    lines (programText (pass.apply w.texts)).toList = (pass.apply w.texts).map String.toList := by
  obtain ⟨p, hlines⟩ := exists_plan h
  rw [Workpiece.texts, hlines]
  refine lines_programText ?_ fun _ ↦ p.isOneLine_of_mem_apply pass
  rw [p.apply_texts]
  simp

/-! ## Laser safety -/

/-- Every program that is finished is safe, whatever the grid, the setting and the start point, and
whether its moves are coalesced or not. -/
theorem laserSafe_programOf? {s : Setting Quantity} {grid : Grid} {startX startY : Quantity}
    {pass : PostPass} {program : String} (h : programOf? s grid startX startY pass = .ok program) :
    LaserSafe (lines program.toList) := by
  rw [programOf?] at h
  match hcompile : compile? s grid startX startY with
  | .error _ =>
    rw [hcompile] at h
    cases h
  | .ok w =>
    rw [hcompile] at h
    cases h
    obtain ⟨p, hlines⟩ := exists_plan hcompile
    have hne : pass.apply (p.lines.map ProgramLine.text) ≠ [] := by
      rw [p.apply_texts]
      simp
    have hpieces : (pass.apply (p.lines.map ProgramLine.text)).map String.toList
        = programPieces (p.setup.map fun line ↦ line.text.toList)
          (ProgramLine.place p.left p.top).text.toList
          ((pass.apply (p.scan.map ProgramLine.text)).map String.toList) := by
      rw [p.apply_texts]
      simp [programPieces]
    rw [Workpiece.texts, hlines, lines_programText hne fun _ ↦ p.isOneLine_of_mem_apply pass,
      hpieces]
    refine laserSafe_programPieces ?_ p.isPlaceText ?_
    · exact List.forall_mem_map.mpr fun line ↦ p.isSetupText
    · exact List.forall_mem_map.mpr fun text ↦ p.isScanText_of_mem_apply pass

theorem laserSafe_programOf?_small :
    ∃ program, programOf? Setting.small Grid.small (.real 10) (.whole 20) .coalesce = .ok program ∧
      LaserSafe (lines program.toList) := by
  obtain ⟨w, hw, -⟩ := exists_compile?_small
  have hprogram : programOf? Setting.small Grid.small (.real 10) (.whole 20) .coalesce
      = .ok (programText (PostPass.coalesce.apply w.texts)) := by
    rw [programOf?, hw]
    rfl
  exact ⟨_, hprogram, laserSafe_programOf? hprogram⟩

end Engraving
