import Engraving.Proofs.Program.Completion
import Engraving.Proofs.Program.LineWords
import Engraving.Proofs.Toolpath.RoundTrip

/-!
# When a program is valid

A program is valid when its words can be executed: places are decimals with three places, the feed
rate is a positive integer and powers are integers up to a thousand, and a strict reader accepts the
whole. A setting is only asked to have positive rates and distances, and that is too little: a
positive number may be infinite or none at all, too large for a float, or round to zero.
`Setting.Suits` lists what else it takes, and it takes no more.
-/

namespace Engraving

/-! ## Words -/

/-- A number with three decimal places, as it is written. -/
def IsThreePlaces (value : List Char) : Prop :=
  ∃ sign whole fraction : List Char, value = sign ++ (whole ++ '.' :: fraction) ∧
    (sign = [] ∨ sign = ['-']) ∧ whole ≠ [] ∧ fraction.length = 3 ∧
      ∀ c ∈ whole ++ fraction, c.isDigit = true

/-- A word whose value can be executed. -/
structure Word.IsProper (w : Word) : Prop where
  coordinate : w.letter = 'X' ∨ w.letter = 'Y' → IsThreePlaces w.value
  feedRate : w.letter = 'F' → ∃ rate : ℕ, 0 < rate ∧ w.value = Nat.toDigits 10 rate
  power : w.letter = 'S' → ∃ power : ℕ, power ≤ 1000 ∧ w.value = Nat.toDigits 10 power

/-- A program that can be executed. -/
structure Workpiece.IsValid (w : Workpiece Quantity) : Prop where
  words : ∀ text ∈ w.texts, ∀ word ∈ Word.ofLine text.toList, word.IsProper
  accepted : ∃ t, Toolpath.ofText? true (programText w.texts).toList = .ok t

theorem isThreePlaces_text {d : FixedPoint 3} (h : d.isFinite = true) :
    IsThreePlaces d.text.toList := by
  match d with
  | .infinite _ => cases h
  | .undefined => cases h
  | .finite negative units =>
    refine ⟨FixedPoint.signChars negative, FixedPoint.wholeDigits 3 units,
      FixedPoint.fractionDigits 3 units, FixedPoint.toList_text_finite negative units, ?_,
      FixedPoint.wholeDigits_ne_nil units, FixedPoint.length_fractionDigits (by norm_num) units, ?_⟩
    · cases negative
      · exact .inl rfl
      · exact .inr rfl
    · intro c hc
      rcases List.mem_append.mp hc with hc | hc
      · exact FixedPoint.isDigit_of_mem_wholeDigits hc
      · exact FixedPoint.isDigit_of_mem_fractionDigits hc

namespace Word

variable {value : List Char}

theorem isProper_coordinate {letter : Char} (h : letter = 'X' ∨ letter = 'Y')
    (hvalue : IsThreePlaces value) : IsProper ⟨letter, value⟩ where
  coordinate _ := hvalue
  feedRate hF := by rcases h with rfl | rfl <;> cases hF
  power hS := by rcases h with rfl | rfl <;> cases hS

theorem isProper_command {letter : Char} (h : letter = 'G' ∨ letter = 'M') :
    IsProper ⟨letter, value⟩ where
  coordinate hX := by rcases h with rfl | rfl <;> rcases hX with hX | hX <;> cases hX
  feedRate hF := by rcases h with rfl | rfl <;> cases hF
  power hS := by rcases h with rfl | rfl <;> cases hS

theorem isProper_feedRate {rate : ℤ} (h : 0 < rate) : IsProper ⟨'F', (toString rate).toList⟩ where
  coordinate hX := by rcases hX with hX | hX <;> cases hX
  feedRate _ := by
    obtain ⟨rate, rfl⟩ := Int.eq_ofNat_of_zero_le h.le
    exact ⟨rate, by exact_mod_cast h, toList_toString_natCast rate⟩
  power hS := by cases hS

theorem isProper_power {power : ℕ} (h : power ≤ 1000) :
    IsProper ⟨'S', (toString (power : ℤ)).toList⟩ where
  coordinate hX := by rcases hX with hX | hX <;> cases hX
  feedRate hF := by cases hF
  power _ := ⟨power, h, toList_toString_natCast power⟩

theorem pos_of_isProper {rate : ℤ} (h : IsProper ⟨'F', (toString rate).toList⟩) : 0 < rate := by
  obtain ⟨n, hn, heq⟩ := h.feedRate rfl
  change (toString rate).toList = Nat.toDigits 10 n at heq
  match rate with
  | (m : ℕ) =>
    rw [toList_toString_natCast, toDigits_inj] at heq
    rw [heq]
    exact_mod_cast hn
  | .negSucc m =>
    have hsign : '-' ∈ Nat.toDigits 10 n := by
      rw [← heq, toList_toString_negSucc]
      exact List.mem_cons_self
    exact absurd (isDigit_of_mem_toDigits hsign) (by decide)

end Word

/-! ## Lines with proper words -/

theorem not_isThreePlaces_sign {sign : List Char} (h : sign = [] ∨ sign = ['-']) :
    ¬ IsThreePlaces sign := by
  rintro ⟨_, _, fraction, rfl, -, -, hlength, -⟩
  have hshort := congrArg List.length (h.resolve_left (by simp))
  simp only [List.length_append, List.length_cons, List.length_nil] at hshort
  omega

/-- A coordinate that is read as a proper word is a decimal. -/
theorem FixedPoint.isFinite_of_isProper {before : List Char}
    (hbefore : ∀ c ∈ before, isPlainCode c = true) {letter : Char}
    (hletter : letter = 'X' ∨ letter = 'Y') {d : FixedPoint 3} {rest : List Char}
    (h : ∀ word ∈ Word.ofLine (before ++ ' ' :: letter :: (d.text.toList ++ rest)),
      word.IsProper) : d.isFinite = true := by
  by_contra hinfinite
  obtain ⟨sign, c, name, htext, hsign, hc⟩ :=
    FixedPoint.exists_name (Bool.not_eq_true _ ▸ hinfinite)
  have hplain : Word.IsPlain ⟨letter, sign⟩ := by
    have hnumeral : ∀ c ∈ sign, isNumeral c = true := by rcases hsign with rfl | rfl <;> decide
    rcases hletter with rfl | rfl
    · exact ⟨rfl, (by decide : 'X' ≠ 'E'), hnumeral⟩
    · exact ⟨rfl, (by decide : 'Y' ≠ 'E'), hnumeral⟩
  have hmem := Word.mem_ofLine_of_name hbefore hplain hc (name ++ rest)
  rw [htext, List.append_assoc] at h
  exact not_isThreePlaces_sign hsign ((h _ hmem).coordinate hletter)

theorem ProgramLine.isFinite_of_isProper {line : ProgramLine}
    (h : ∀ word ∈ Word.ofLine line.text.toList, word.IsProper) : line.IsFinite := by
  have hcode : ∀ c ∈ "G1".toList, isPlainCode c = true := by decide
  cases line with
  | burn delta power =>
    have htext : (burn delta power).text.toList = "G1".toList ++ ' ' :: 'X' ::
        (delta.text.toList ++ ("S" ++ toString power).toList) := by simp [text]
    rw [htext] at h
    exact List.forall_mem_singleton.mpr (FixedPoint.isFinite_of_isProper hcode (.inl rfl) h)
  | advance delta =>
    have htext : (advance delta).text.toList
        = "G1".toList ++ ' ' :: 'Y' :: (delta.text.toList ++ []) := by simp [text]
    rw [htext] at h
    exact List.forall_mem_singleton.mpr (FixedPoint.isFinite_of_isProper hcode (.inr rfl) h)
  | place x y =>
    have hmove : ∀ c ∈ "G53 G0".toList, isPlainCode c = true := by decide
    have hletter : ∀ c ∈ "G53 G0 X".toList, isPlainCode c = true := by decide
    have htext : (place x y).text.toList = "G53 G0".toList ++ ' ' :: 'X' :: (x.text.toList ++
        (" Y" ++ y.text ++ " ; Move to start (machine coordinates)").toList) := by simp [text]
    have hx := FixedPoint.isFinite_of_isProper hmove (.inl rfl) (htext ▸ h)
    -- The first coordinate stands in front of the second one, so it has to be a decimal already.
    have hfront : ∀ c ∈ "G53 G0 X".toList ++ x.text.toList, isPlainCode c = true := by
      intro c hc
      rcases List.mem_append.mp hc with hc | hc
      · exact hletter c hc
      · exact isPlainCode_of_isNumeral (FixedPoint.isNumeral_of_mem_text hx hc)
    have htext' : (place x y).text.toList = ("G53 G0 X".toList ++ x.text.toList) ++ ' ' :: 'Y' ::
        (y.text.toList ++ " ; Move to start (machine coordinates)".toList) := by simp [text]
    have hy := FixedPoint.isFinite_of_isProper hfront (.inr rfl) (htext' ▸ h)
    exact List.forall_mem_cons.mpr ⟨hx, List.forall_mem_singleton.mpr hy⟩
  | _ => exact isFinite_of_coordinates_eq_nil rfl

theorem Workpiece.IsValid.isFinite {w : Workpiece Quantity} (h : w.IsValid) :
    ∀ line ∈ w.lines.toList, line.IsFinite :=
  fun _ hline ↦ ProgramLine.isFinite_of_isProper (h.words _ (List.mem_map_of_mem hline))

/-! ## Powers and moves of a program -/

section scanLines

variable {strides : Strides} {y : ℕ} {leftToRight : Bool} {powers : List (List ℕ)}

theorem exists_power_of_burn_mem_scanLines {delta : FixedPoint 3} {power : ℤ}
    (h : ProgramLine.burn delta power ∈ scanLines strides y leftToRight powers) :
    ∃ row ∈ powers, ∃ n ∈ row, power = (n : ℕ) := by
  induction powers generalizing y leftToRight with
  | nil => cases h
  | cons row rest ih =>
    rw [scanLines, List.mem_cons, List.mem_append, List.mem_append] at h
    rcases h with h | h | h | h
    · cases h
    · obtain ⟨n, hn, heq⟩ := List.mem_map.mp h
      obtain ⟨-, rfl⟩ := ProgramLine.burn.inj heq
      refine ⟨row, List.mem_cons_self, n, ?_, rfl⟩
      cases leftToRight
      · exact List.mem_reverse.mp hn
      · exact hn
    · split at h
      · cases h
      · cases List.mem_singleton.mp h
    · obtain ⟨later, hlater, n, hn⟩ := ih h
      exact ⟨later, List.mem_cons_of_mem _ hlater, n, hn⟩

theorem one_lt_length_of_advance_mem_scanLines {delta : FixedPoint 3}
    (h : ProgramLine.advance delta ∈ scanLines strides y leftToRight powers) :
    1 < powers.length := by
  induction powers generalizing y leftToRight with
  | nil => cases h
  | cons row rest ih =>
    rw [scanLines, List.mem_cons, List.mem_append, List.mem_append] at h
    rw [List.length_cons]
    rcases h with h | h | h | h
    · cases h
    · obtain ⟨_, -, heq⟩ := List.mem_map.mp h
      cases heq
    · cases rest with
      | nil => cases h
      | cons next later => exact Nat.succ_lt_succ (Nat.succ_pos later.length)
    · exact (ih h).trans (Nat.lt_succ_self _)

end scanLines

namespace Plan

variable {s : Setting Quantity} {grid : Grid} {startX startY : Quantity}
  {p : Plan s grid startX startY} {delta : FixedPoint 3}

theorem mem_scan_of_isMove {line : ProgramLine} (h : line ∈ p.lines) (hmove : line.isMove = true) :
    line ∈ scanLines s.strides 0 true p.powers := by
  rw [lines, List.mem_append, List.mem_append, List.mem_append] at h
  rcases h with h | h | h | h
  · simp only [headerLines, List.mem_cons, List.not_mem_nil, or_false] at h
    rcases h with rfl | rfl | rfl | rfl <;> cases hmove
  · simp only [preambleLines, List.mem_cons, List.not_mem_nil, or_false] at h
    rcases h with rfl | rfl | rfl | rfl | rfl | rfl <;> cases hmove
  · exact h
  · simp only [footerLines, List.mem_cons, List.not_mem_nil, or_false] at h
    rcases h with rfl | rfl <;> cases hmove

/-- Where a program burns there is a pixel, and the power is one that is allowed. -/
theorem exists_power_of_burn_mem {power : ℤ} (h : ProgramLine.burn delta power ∈ p.lines) :
    0 < grid.width ∧ 0 < grid.height ∧ ∃ n : ℕ, n ≤ 1000 ∧ power = n := by
  obtain ⟨row, hrow, n, hn, rfl⟩ :=
    exists_power_of_burn_mem_scanLines (mem_scan_of_isMove h rfl)
  refine ⟨?_, ?_, n, ?_, rfl⟩
  · rw [← p.length_of_mem_powers hrow]
    exact_mod_cast List.length_pos_of_mem hn
  · rw [← p.length_powers]
    exact List.length_pos_of_mem hrow
  · obtain ⟨grays, -, hpowers⟩ := exists_of_mem_mapM p.powers_eq hrow
    obtain ⟨gray, -, hpower⟩ := exists_of_mem_mapM hpowers hn
    exact power?_le hpower

theorem one_lt_height_of_advance_mem (h : ProgramLine.advance delta ∈ p.lines) :
    1 < grid.height := by
  rw [← p.length_powers]
  exact one_lt_length_of_advance_mem_scanLines (mem_scan_of_isMove h rfl)

theorem eq_of_feedRate_mem_lines {rate : ℤ} (h : ProgramLine.feedRate rate ∈ p.lines) :
    rate = p.rate := by
  cases isLine_of_mem_lines h with
  | header h => simp [headerLines] at h
  | mode h => simpa using h
  | scan h => cases h

theorem feedRate_mem_lines : ProgramLine.feedRate p.rate ∈ p.lines := by
  rw [lines, preambleLines]
  simp

/-- The words of a program are proper when its coordinates are finite and its feed rate is
positive. -/
theorem isProper_of_mem_words (hfinite : ∀ line ∈ p.lines, line.IsFinite) (hrate : 0 < p.rate)
    {line : ProgramLine} (hline : line ∈ p.lines) : ∀ word ∈ line.words, word.IsProper := by
  have hcoordinate {letter : Char} (hletter : letter = 'X' ∨ letter = 'Y') {d : FixedPoint 3}
      (hd : d ∈ line.coordinates) : Word.IsProper ⟨letter, d.text.toList⟩ :=
    Word.isProper_coordinate hletter (isThreePlaces_text (hfinite line hline d hd))
  have hcommand {value : List Char} : Word.IsProper ⟨'G', value⟩ := Word.isProper_command (.inl rfl)
  have hmachine {value : List Char} : Word.IsProper ⟨'M', value⟩ := Word.isProper_command (.inr rfl)
  cases line with
  | comment _ => exact List.forall_mem_nil _
  | millimetres | absolute | relative | restoreAbsolute =>
    exact List.forall_mem_singleton.mpr hcommand
  | laserOn | laserOff => exact List.forall_mem_singleton.mpr hmachine
  | feedRate rate =>
    obtain rfl := eq_of_feedRate_mem_lines hline
    exact List.forall_mem_singleton.mpr (Word.isProper_feedRate hrate)
  | place x y =>
    refine List.forall_mem_cons.mpr ⟨hcommand, List.forall_mem_cons.mpr ⟨hcommand, ?_⟩⟩
    refine List.forall_mem_cons.mpr ⟨hcoordinate (.inl rfl) List.mem_cons_self, ?_⟩
    exact List.forall_mem_singleton.mpr
      (hcoordinate (.inr rfl) (List.mem_cons_of_mem _ List.mem_cons_self))
  | burn delta power =>
    obtain ⟨-, -, n, hn, rfl⟩ := exists_power_of_burn_mem hline
    refine List.forall_mem_cons.mpr ⟨hcommand, ?_⟩
    refine List.forall_mem_cons.mpr ⟨hcoordinate (.inl rfl) List.mem_cons_self, ?_⟩
    exact List.forall_mem_singleton.mpr (Word.isProper_power hn)
  | advance delta =>
    refine List.forall_mem_cons.mpr ⟨hcommand, List.forall_mem_singleton.mpr ?_⟩
    exact hcoordinate (.inr rfl) List.mem_cons_self

/-- A program with finite coordinates and a positive feed rate is valid. -/
theorem isValid {w : Workpiece Quantity} (hw : compile? s grid startX startY = .ok w)
    (hlines : w.lines.toList = p.lines) (hfinite : ∀ line ∈ p.lines, line.IsFinite)
    (hrate : 0 < p.rate) : w.IsValid where
  words := by
    intro text htext
    rw [Workpiece.texts, hlines] at htext
    obtain ⟨line, hline, rfl⟩ := List.mem_map.mp htext
    rw [ProgramLine.ofLine_text (hfinite line hline)]
    exact isProper_of_mem_words hfinite hrate hline
  accepted := by
    have htexts : w.texts.map String.toList = p.lines.map fun line ↦ line.text.toList := by
      rw [Workpiece.texts, hlines, List.map_map]
      rfl
    refine ⟨(p.lines.foldl Toolpath.obey {}).inOrder, ?_⟩
    rw [Toolpath.ofText?, lines_programText_texts hw, htexts,
      foldlM_line_eq_obey (p.isReadable hfinite)]
    rfl

theorem rate_pos {w : Workpiece Quantity} (hlines : w.lines.toList = p.lines) (h : w.IsValid) :
    0 < p.rate := by
  have hmem : ProgramLine.feedRate p.rate ∈ w.lines.toList := hlines ▸ feedRate_mem_lines
  have hfinite : (ProgramLine.feedRate p.rate).IsFinite :=
    ProgramLine.isFinite_of_coordinates_eq_nil rfl
  have hwords := h.words _ (List.mem_map_of_mem hmem)
  rw [ProgramLine.ofLine_text hfinite] at hwords
  exact Word.pos_of_isProper (hwords _ List.mem_cons_self)

end Plan

/-! ## The settings that suit a grid -/

/-- What it takes for the program of a grid to be valid, apart from positive rates and distances. -/
structure Setting.Suits (s : Setting Quantity) (grid : Grid) (startX startY : Quantity) : Prop where
  width : ∃ d, (Checked.mul (Checked.ofWhole grid.width) s.step >>= Checked.fixed? 2) = .ok d
  height : ∃ d, (Checked.mul (Checked.ofWhole grid.height) s.rowPitch >>= Checked.fixed? 2) = .ok d
  maxPower : ∃ text, s.maxPower.text? = .ok text
  feedRate : ∃ text, Checked.text? s.feedRate = .ok text
  rate : ∃ rate, Checked.nearest? s.feedRate = .ok rate ∧ 0 < rate
  left : ∃ q, startX.Denotes q
  top : ∃ top q, topOf? s grid startY = .ok top ∧ top.Denotes q
  /-- If there are pixels, their powers can be told and the step is a finite number. -/
  pixel : 0 < grid.width → 0 < grid.height →
    (∃ n, s.maxPower.truncate? = .ok n) ∧ ∃ q, s.step.Denotes q
  /-- If there are two rows, their distance is a finite number. -/
  descent : 1 < grid.height → ∃ q, s.rowPitch.Denotes q
  /-- If there are moves at the feed rate, it is not too large to be a float. -/
  move : (0 < grid.width ∧ 0 < grid.height) ∨ 1 < grid.height → ∃ q, s.feedRate.Denotes q

namespace Setting.Suits

variable {s : Setting Quantity} {grid : Grid} {startX startY : Quantity}

theorem canCompile (h : s.Suits grid startX startY) : s.CanCompile grid startX startY := by
  obtain ⟨rate, hrate, hpos⟩ := h.rate
  obtain ⟨x, hx⟩ := h.left
  obtain ⟨top, y, htop, hy⟩ := h.top
  obtain ⟨left, hleft, -⟩ := hx.fixed? 3
  obtain ⟨d, hd, -⟩ := hy.fixed? 3
  have htravel {length : Quantity} {q v : ℚ} (hfeed : s.feedRate.Denotes q)
      (hlength : length.Denotes v) : s.feedRate.CanTravel length := by
    obtain ⟨f, hf, -⟩ := hfeed
    obtain ⟨l, hl, -⟩ := hlength
    exact (Quantity.canTravel_iff hrate hpos).mpr ⟨⟨l, hl⟩, f, hf⟩
  refine ⟨h.width, h.height, h.maxPower, h.feedRate, ⟨rate, hrate⟩, ⟨left, hleft⟩,
    ⟨d, bind_eq_ok_iff.mpr ⟨top, htop, hd⟩⟩, fun hwidth hheight ↦ ?_, fun hheight ↦ ?_⟩
  · obtain ⟨hpower, v, hv⟩ := h.pixel hwidth hheight
    obtain ⟨q, hq⟩ := h.move (.inl ⟨hwidth, hheight⟩)
    exact ⟨hpower, htravel hq hv⟩
  · obtain ⟨v, hv⟩ := h.descent hheight
    obtain ⟨q, hq⟩ := h.move (.inr hheight)
    exact htravel hq hv

theorem isFinite_of_mem_lines (h : s.Suits grid startX startY) (p : Plan s grid startX startY) :
    ∀ line ∈ p.lines, line.IsFinite := by
  have hvalue {d : FixedPoint 3} {v : ℚ} (hv : d.value? = some v) : d.isFinite = true :=
    FixedPoint.isFinite_iff_value?.mpr ⟨v, hv⟩
  have hprinted {a : Quantity} {q : ℚ} (ha : a.Denotes q) {d : FixedPoint 3}
      (hd : Checked.fixed? 3 a = .ok d) : d.isFinite = true := by
    rw [← printed_eq hd]
    exact hvalue (value?_printed ha)
  intro line hline
  -- Only the line that places the head and the moves of the scan have coordinates.
  cases Plan.isLine_of_mem_lines hline with
  | header hline =>
    simp only [headerLines, List.mem_cons, List.not_mem_nil, or_false] at hline
    rcases hline with rfl | rfl | rfl | rfl <;>
      exact ProgramLine.isFinite_of_coordinates_eq_nil rfl
  | mode hline =>
    simp only [List.mem_cons, List.not_mem_nil, or_false] at hline
    rcases hline with rfl | rfl | rfl | rfl | rfl | rfl | rfl <;>
      exact ProgramLine.isFinite_of_coordinates_eq_nil rfl
  | place =>
    obtain ⟨x, hx⟩ := h.left
    obtain ⟨top, y, htop, hy⟩ := h.top
    obtain ⟨top', htop', hprint⟩ := bind_eq_ok_iff.mp p.top_eq
    obtain rfl := Except.ok.inj (htop.symm.trans htop')
    exact List.forall_mem_cons.mpr
      ⟨hprinted hx p.left_eq, List.forall_mem_singleton.mpr (hprinted hy hprint)⟩
  | scan hscan =>
    cases hscan with
    | comment y => exact ProgramLine.isFinite_of_coordinates_eq_nil rfl
    | right power =>
      obtain ⟨hwidth, hheight, -⟩ := Plan.exists_power_of_burn_mem hline
      obtain ⟨-, q, hq⟩ := h.pixel hwidth hheight
      exact List.forall_mem_singleton.mpr (hvalue (value?_right hq))
    | left power =>
      obtain ⟨hwidth, hheight, -⟩ := Plan.exists_power_of_burn_mem hline
      obtain ⟨-, q, hq⟩ := h.pixel hwidth hheight
      exact List.forall_mem_singleton.mpr (hvalue (value?_left hq))
    | down =>
      obtain ⟨q, hq⟩ := h.descent (Plan.one_lt_height_of_advance_mem hline)
      exact List.forall_mem_singleton.mpr (hvalue (value?_down hq))

end Setting.Suits

/-- **When a program is valid.** A program is finished and valid exactly when the setting suits the
grid. -/
theorem exists_isValid_iff {s : Setting Quantity} {grid : Grid} {startX startY : Quantity} :
    (∃ w, compile? s grid startX startY = .ok w ∧ w.IsValid) ↔ s.Suits grid startX startY := by
  constructor
  · rintro ⟨w, hw, hvalid⟩
    have hcompile := exists_compile?_iff.mp ⟨w, hw⟩
    obtain ⟨p, hlines⟩ := exists_plan hw
    have hfinite : ∀ line ∈ p.lines, line.IsFinite := hlines ▸ hvalid.isFinite
    -- A rate that is written and that moves can be timed with is a number.
    have hfeed {length : Quantity} (h : s.feedRate.CanTravel length) :
        ∃ q, s.feedRate.Denotes q := by
      obtain ⟨x, hx⟩ := Quantity.exists_toFloat?_of_canTime h.2
      obtain ⟨q, hq, -⟩ :=
        Quantity.exists_denotes_of_nearest? p.rate_eq (p.rate_pos hlines hvalid) hx
      exact ⟨q, hq⟩
    obtain ⟨top, htop, hprint⟩ := bind_eq_ok_iff.mp p.top_eq
    obtain ⟨y, hy⟩ := Quantity.exists_denotes_of_fixed? hprint (p.isFinite_top hfinite)
    refine ⟨hcompile.width, hcompile.height, hcompile.maxPower, hcompile.feedRate,
      ⟨p.rate, p.rate_eq, p.rate_pos hlines hvalid⟩,
      Quantity.exists_denotes_of_fixed? p.left_eq (p.isFinite_left hfinite), ⟨top, y, htop, hy⟩,
      fun hwidth hheight ↦ ?_, fun hheight ↦ ?_, ?_⟩
    · obtain ⟨q, hq, -⟩ := p.exists_step_denotes hfinite hwidth hheight
      exact ⟨(hcompile.pixel hwidth hheight).1, q, hq⟩
    · obtain ⟨q, hq, -⟩ := p.exists_pitch_denotes hfinite hheight
      exact ⟨q, hq⟩
    · rintro (⟨hwidth, hheight⟩ | hheight)
      · exact hfeed (hcompile.pixel hwidth hheight).2
      · exact hfeed (hcompile.descent hheight)
  · intro h
    obtain ⟨w, hw⟩ := exists_compile?_iff.mpr h.canCompile
    obtain ⟨p, hlines⟩ := exists_plan hw
    obtain ⟨rate, hrate, hpos⟩ := h.rate
    have hsame : p.rate = rate := Except.ok.inj (p.rate_eq.symm.trans hrate)
    exact ⟨w, hw, p.isValid hw hlines (h.isFinite_of_mem_lines p) (hsame ▸ hpos)⟩

/-- A single black pixel. -/
def Grid.dot : Grid where
  width := 1
  rows := [[0]]
  uniform := by decide

/-- A feed rate that is no float. -/
def Setting.hasty : Setting Quantity where
  maxPower := .whole 100
  feedRate := .whole (Nat.pow 10 400)
  step := .real 1
  feedRate_positive := by decide +kernel
  step_positive := by decide +kernel
  lineStep_positive := by simp

/-- A feed rate that rounds to zero. -/
def Setting.sluggish : Setting Quantity where
  maxPower := .whole 100
  feedRate := .real 0.4
  step := .real 1
  feedRate_positive := by decide +kernel
  step_positive := by decide +kernel
  lineStep_positive := by simp

/-- A step without end. -/
def Setting.endless : Setting Quantity where
  maxPower := .whole 100
  feedRate := .whole 600
  step := .real (1 / 0)
  feedRate_positive := by decide
  step_positive := by decide +kernel
  lineStep_positive := by simp

/-- A setting with positive rates and distances need not have a valid program. -/
theorem not_exists_isValid :
    (¬ ∃ w, compile? Setting.hasty Grid.dot (.real 0) (.real 0) = .ok w ∧ w.IsValid) ∧
    (¬ ∃ w, compile? Setting.sluggish Grid.dot (.real 0) (.real 0) = .ok w ∧ w.IsValid) ∧
    ¬ ∃ w, compile? Setting.endless Grid.dot (.real 0) (.real 0) = .ok w ∧ w.IsValid := by
  rw [exists_isValid_iff, exists_isValid_iff, exists_isValid_iff]
  refine ⟨fun h ↦ ?_, fun h ↦ ?_, fun h ↦ ?_⟩
  · obtain ⟨q, x, hx, -⟩ := h.move (.inl (by decide))
    have hlarge : (Setting.hasty.feedRate.toFloat?).toBool = false := by decide +kernel
    rw [hx] at hlarge
    cases hlarge
  · obtain ⟨rate, hrate, hpos⟩ := h.rate
    have hzero : (Setting.sluggish.feedRate.nearest?).toOption = some 0 := by decide +kernel
    change Setting.sluggish.feedRate.nearest? = .ok rate at hrate
    rw [hrate] at hzero
    cases hzero
    exact absurd hpos (by decide)
  · obtain ⟨-, q, x, hx, hq⟩ := h.pixel (by decide) (by decide)
    have hinfinite : (Setting.endless.step.toFloat?).toOption.map
        (fun x ↦ (Exact.ofFloat x).isFinite) = some false := by decide +kernel
    have hfinite := isFinite_iff_denotes.mpr ⟨q, hq⟩
    rw [hx, Except.toOption, Option.map_some, hfinite] at hinfinite
    cases hinfinite

end Engraving
