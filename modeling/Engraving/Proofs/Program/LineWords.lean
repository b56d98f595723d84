import Engraving.Program.Compiler
import Engraving.Proofs.Toolpath.WordText

/-!
# The words of a program line

What a reader makes of the lines of a program, whether or not their numbers are finite.
-/

namespace Engraving

/-! ## Finite numbers

Whoever reads a written line of a program finds exactly the words that were meant: letters with the
written forms of the numbers behind them, and nothing of the remark at the end. The one condition
is that the coordinates are finite, for the name of an infinite number would be cut up into words
of its own.
-/

/-! ### Written integers -/

theorem toList_toString_natCast (n : ℕ) : (toString (n : ℤ)).toList = Nat.toDigits 10 n :=
  Nat.toList_repr

theorem toList_toString_negSucc (n : ℕ) :
    (toString (Int.negSucc n)).toList = '-' :: Nat.toDigits 10 (n + 1) := by
  change ("-" ++ (n + 1).repr).toList = _
  rw [String.toList_append, Nat.toList_repr]
  rfl

theorem isNumeral_of_mem_toString {n : ℤ} {c : Char} (h : c ∈ (toString n).toList) :
    isNumeral c = true := by
  match n with
  | (n : ℕ) =>
    rw [toList_toString_natCast] at h
    exact isNumeral_of_isDigit (isDigit_of_mem_toDigits h)
  | .negSucc n =>
    rw [toList_toString_negSucc] at h
    rcases List.mem_cons.mp h with rfl | h
    · rfl
    · exact isNumeral_of_isDigit (isDigit_of_mem_toDigits h)

theorem FixedPoint.isNumeral_of_mem_text {places : ℕ} {d : FixedPoint places}
    (hd : d.isFinite = true) {c : Char} (h : c ∈ d.text.toList) : isNumeral c = true := by
  match d with
  | .finite _ _ => exact isNumeral_of_mem_text_finite h
  | .infinite _ => cases hd
  | .undefined => cases hd

namespace ProgramLine

def coordinates : ProgramLine → List (FixedPoint 3)
  | place x y => [x, y]
  | burn delta _ => [delta]
  | advance delta => [delta]
  | _ => []

/-- All coordinates on the line are decimals. -/
def IsFinite (line : ProgramLine) : Prop := ∀ d ∈ line.coordinates, d.isFinite = true

theorem isFinite_of_coordinates_eq_nil {line : ProgramLine} (h : line.coordinates = []) :
    line.IsFinite := by
  rw [IsFinite, h]
  exact List.forall_mem_nil _

instance : DecidablePred IsFinite := fun line ↦
  inferInstanceAs (Decidable (∀ d ∈ line.coordinates, d.isFinite = true))

/-- The words on a line, in runs that blanks stand between. -/
def runs : ProgramLine → List (List Word)
  | comment _ => []
  | millimetres => [[⟨'G', ['2', '1']⟩]]
  | absolute => [[⟨'G', ['9', '0']⟩]]
  | feedRate rate => [[⟨'F', (toString rate).toList⟩]]
  | place x y =>
    [[⟨'G', ['5', '3']⟩], [⟨'G', ['0']⟩], [⟨'X', x.text.toList⟩], [⟨'Y', y.text.toList⟩]]
  | laserOn => [[⟨'M', ['4']⟩]]
  | relative => [[⟨'G', ['9', '1']⟩]]
  | burn delta power =>
    [[⟨'G', ['1']⟩], [⟨'X', delta.text.toList⟩, ⟨'S', (toString power).toList⟩]]
  | advance delta => [[⟨'G', ['1']⟩], [⟨'Y', delta.text.toList⟩]]
  | laserOff => [[⟨'M', ['5']⟩]]
  | restoreAbsolute => [[⟨'G', ['9', '0']⟩]]

def words (line : ProgramLine) : List Word := line.runs.flatten

private theorem isPlain_mk {letter : Char} {value : List Char}
    (hletter : Word.isAddress letter = true ∧ letter ≠ 'E')
    (hvalue : ∀ c ∈ value, isNumeral c = true) : Word.IsPlain ⟨letter, value⟩ :=
  ⟨hletter.1, hletter.2, hvalue⟩

private theorem isPlain_run {letter : Char} {value : List Char}
    (hletter : Word.isAddress letter = true ∧ letter ≠ 'E')
    (hvalue : ∀ c ∈ value, isNumeral c = true) :
    [(⟨letter, value⟩ : Word)] ≠ [] ∧ ∀ w ∈ [(⟨letter, value⟩ : Word)], w.IsPlain :=
  ⟨List.cons_ne_nil _ _, List.forall_mem_singleton.mpr (isPlain_mk hletter hvalue)⟩

theorem isPlain_of_mem_runs {line : ProgramLine} (h : line.IsFinite) :
    ∀ run ∈ line.runs, run ≠ [] ∧ ∀ w ∈ run, w.IsPlain := by
  have hcode (value : List Char) (hvalue : ∀ c ∈ value, isNumeral c = true) :
      [(⟨'G', value⟩ : Word)] ≠ [] ∧ ∀ w ∈ [(⟨'G', value⟩ : Word)], w.IsPlain :=
    isPlain_run (by decide) hvalue
  have hdelta {d : FixedPoint 3} (hd : d ∈ line.coordinates) :
      ∀ c ∈ d.text.toList, isNumeral c = true :=
    fun _ ↦ FixedPoint.isNumeral_of_mem_text (h d hd)
  cases line with
  | comment _ => exact List.forall_mem_nil _
  | millimetres | absolute | relative | restoreAbsolute =>
    exact List.forall_mem_singleton.mpr (hcode _ (by decide))
  | laserOn | laserOff =>
    exact List.forall_mem_singleton.mpr (isPlain_run (by decide) (by decide))
  | feedRate rate =>
    exact List.forall_mem_singleton.mpr
      (isPlain_run (by decide) fun _ ↦ isNumeral_of_mem_toString)
  | place x y =>
    refine List.forall_mem_cons.mpr ⟨hcode _ (by decide), ?_⟩
    refine List.forall_mem_cons.mpr ⟨hcode _ (by decide), ?_⟩
    refine List.forall_mem_cons.mpr ⟨isPlain_run (by decide) (hdelta List.mem_cons_self), ?_⟩
    exact List.forall_mem_singleton.mpr
      (isPlain_run (by decide) (hdelta (List.mem_cons_of_mem _ List.mem_cons_self)))
  | burn delta power =>
    refine List.forall_mem_cons.mpr ⟨hcode _ (by decide), List.forall_mem_singleton.mpr ?_⟩
    refine ⟨List.cons_ne_nil _ _, List.forall_mem_cons.mpr ⟨?_, List.forall_mem_singleton.mpr ?_⟩⟩
    · exact isPlain_mk (by decide) (hdelta List.mem_cons_self)
    · exact isPlain_mk (by decide) fun _ ↦ isNumeral_of_mem_toString
  | advance delta =>
    refine List.forall_mem_cons.mpr ⟨hcode _ (by decide), List.forall_mem_singleton.mpr ?_⟩
    exact isPlain_run (by decide) (hdelta List.mem_cons_self)

/-- A written line holds its words, perhaps with a remark behind them. -/
theorem toList_text (line : ProgramLine) : ∃ gap remark : List Char,
    line.text.toList = Word.runsText line.runs ++ gap ++ remark ∧ (gap = [] ∨ gap = [' ']) ∧
      ∀ c ∈ remark.head?, c = ';' := by
  cases line with
  | comment text =>
    refine ⟨[], ("; " ++ text).toList, rfl, Or.inl rfl, ?_⟩
    rw [String.toList_append]
    rintro c ⟨⟩
    rfl
  | millimetres =>
    exact ⟨[' '], "; Set units to millimeters".toList, by decide, Or.inr rfl, by decide⟩
  | absolute => exact ⟨[' '], "; Absolute positioning".toList, by decide, Or.inr rfl, by decide⟩
  | laserOn =>
    exact ⟨[' '], "; Enable laser (dynamic power mode)".toList, by decide, Or.inr rfl, by decide⟩
  | relative => exact ⟨[' '], "; Relative positioning".toList, by decide, Or.inr rfl, by decide⟩
  | laserOff => exact ⟨[' '], "; Disable laser".toList, by decide, Or.inr rfl, by decide⟩
  | restoreAbsolute =>
    exact ⟨[' '], "; Return to absolute positioning".toList, by decide, Or.inr rfl, by decide⟩
  | feedRate rate =>
    refine ⟨[' '], "; Set feed rate".toList, ?_, Or.inr rfl, by decide⟩
    simp [text, runs, Word.runsText, Word.text]
  | place x y =>
    refine ⟨[' '], "; Move to start (machine coordinates)".toList, ?_, Or.inr rfl, by decide⟩
    simp [text, runs, Word.runsText, Word.text]
  | burn delta power =>
    refine ⟨[], [], ?_, Or.inl rfl, by simp⟩
    simp [text, runs, Word.runsText, Word.text]
  | advance delta =>
    refine ⟨[], [], ?_, Or.inl rfl, by simp⟩
    simp [text, runs, Word.runsText, Word.text]

/-- The words found on a written line are the words of the line. -/
theorem ofLine_text {line : ProgramLine} (h : line.IsFinite) :
    Word.ofLine line.text.toList = line.words := by
  obtain ⟨gap, remark, htext, hgap, hremark⟩ := toList_text line
  rw [htext, Word.ofLine_runsText (isPlain_of_mem_runs h) hgap hremark, words]

end ProgramLine

/-! ## Values that are written by name

An infinite number and what is no number are written by their names, and a reader who cuts a line
into words takes the letters of a name for the letters of words. All that is left of the value is
its sign.
-/

/-! ### What stands in front -/

/-- What stands behind a blank begins a run, whatever stands in front. -/
theorem exists_append_mem_blankFree {run : List Char} (hne : run ≠ [])
    (h : ∀ c ∈ run, isBlank c = false) (before rest : List Char) :
    ∃ tail, run ++ tail ∈ blankFree (before ++ ' ' :: (run ++ rest)) := by
  refine ⟨rest.takeWhile isInk, ?_⟩
  rw [blankFree_append_cons (by decide), blankFree_append_eq hne h]
  exact List.mem_append_right _ List.mem_cons_self

namespace Word

/-- Code in front of a character that begins no comment is kept as it is, and that character is
taken in upper case. -/
theorem upperCase_stripComments_append {code : List Char} (h : ∀ d ∈ code, isPlainCode d = true)
    {c : Char} (hc : c ≠ ';' ∧ c ≠ '(') (rest : List Char) :
    upperCase (stripComments (code ++ c :: rest))
      = code ++ (upperCaseOf c ++ upperCase (stripComments rest)) := by
  have hkept : ∀ d ∈ code ++ [c], d ≠ ';' ∧ d ≠ '(' := by
    intro d hd
    rcases List.mem_append.mp hd with hd | hd
    · exact ne_of_isPlainCode (h d hd)
    · rwa [List.mem_singleton.mp hd]
  have hsame := upperCase_eq_self fun d hd ↦ upperCaseOf_of_isPlainCode (h d hd)
  rw [upperCase] at hsame
  rw [← List.singleton_append, ← List.append_assoc, stripComments_append hkept, upperCase,
    List.flatMap_append, List.flatMap_append, List.flatMap_singleton, hsame, List.append_assoc,
    upperCase]

/-- The name of a value begins with what is in upper case a letter of words. -/
theorem exists_upperCaseOf_name {c : Char} (h : c = 'i' ∨ c = 'n') :
    ∃ upper, upperCaseOf c = [upper] ∧ isBlank upper = false ∧ isAddress upper = true ∧
      upper ≠ 'E' := by
  rcases h with rfl | rfl
  · exact ⟨'I', by decide⟩
  · exact ⟨'N', by decide⟩

/-- A coordinate whose value is written by name is read as its letter and the sign. -/
theorem mem_ofLine_of_name {before : List Char} (hbefore : ∀ c ∈ before, isPlainCode c = true)
    {w : Word} (hw : w.IsPlain) {c : Char} (hc : c = 'i' ∨ c = 'n') (rest : List Char) :
    w ∈ ofLine (before ++ ' ' :: (w.text ++ c :: rest)) := by
  have htext : ∀ d ∈ w.text, isPlainCode d = true ∧ isBlank d = false :=
    fun d hd ↦ isPlainCode_of_mem_text hw hd
  obtain ⟨upper, hupper, hblank, haddress, hexponent⟩ := exists_upperCaseOf_name hc
  have hfront : ∀ d ∈ before ++ ' ' :: w.text, isPlainCode d = true := by
    intro d hd
    rcases List.mem_append.mp hd with hd | hd
    · exact hbefore d hd
    · rcases List.mem_cons.mp hd with rfl | hd
      · decide
      · exact (htext d hd).1
  have hcase : upperCase (stripComments (before ++ ' ' :: (w.text ++ c :: rest)))
      = before ++ ' ' :: (w.text ++ [upper] ++ upperCase (stripComments rest)) := by
    have hlast : c ≠ ';' ∧ c ≠ '(' := by rcases hc with rfl | rfl <;> decide
    have hkept := upperCase_stripComments_append hfront hlast rest
    rw [hupper, List.append_assoc, List.append_assoc, List.cons_append, List.cons_append] at hkept
    rw [hkept, List.append_assoc]
  have hrun : ∀ d ∈ w.text ++ [upper], isBlank d = false := by
    intro d hd
    rcases List.mem_append.mp hd with hd | hd
    · exact (htext d hd).2
    · rwa [List.mem_singleton.mp hd]
  obtain ⟨tail, htail⟩ := exists_append_mem_blankFree
    (List.append_ne_nil_of_right_ne_nil w.text (List.cons_ne_nil upper [])) hrun before
    (upperCase (stripComments rest))
  have hbegins : BeginsWord (upper :: tail) := by
    rintro d ⟨⟩
    exact ⟨haddress, hexponent⟩
  rw [ofLine, ofText, hcase, ofCode, List.mem_flatMap]
  refine ⟨_, htail, ?_⟩
  rw [List.append_assoc, List.singleton_append, ofRun_text_append hw hbegins]
  exact List.mem_cons_self

end Word

/-- What is no decimal is written as a sign and a name. -/
theorem FixedPoint.exists_name {places : ℕ} {d : FixedPoint places} (h : d.isFinite = false) :
    ∃ sign c name, d.text.toList = sign ++ c :: name ∧ (sign = [] ∨ sign = ['-']) ∧
      (c = 'i' ∨ c = 'n') := by
  match d with
  | .finite _ _ => cases h
  | .infinite false => exact ⟨[], 'i', ['n', 'f'], by simp [text, signText], .inl rfl, .inl rfl⟩
  | .infinite true => exact ⟨['-'], 'i', ['n', 'f'], by simp [text, signText], .inr rfl, .inl rfl⟩
  | .undefined => exact ⟨[], 'n', ['a', 'n'], by simp [text], .inl rfl, .inr rfl⟩

end Engraving
