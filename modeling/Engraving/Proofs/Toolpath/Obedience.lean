import Engraving.Proofs.Program.LineText
import Engraving.Toolpath.Reading

/-!
# How a reader follows the lines of a program

To a reader of programs every kind of line does one thing: remarks are passed over, settings of the
machine are noted as lines without motion, modes change the mode, and moves add a segment. What a
line does is written down on the typed lines (`HeadState.obey`), and reading a written line strictly
is shown to do just that. From there on nothing is left of texts and words.

The one thing a reader may stumble over is a coordinate that is no finite number. Coordinates that
were printed as decimals of floats are always read as finite floats again.
-/

namespace Engraving

/-! ## Reading coordinates -/

namespace FixedPoint

/-- The float that a written decimal is read as. -/
def reading (d : FixedPoint 3) : Float := (readFloat? d.text.toList).getD 0

/-- A decimal that is read as a finite float. -/
structure IsReadable (d : FixedPoint 3) : Prop where
  isFinite : d.isFinite = true
  readFloat?_eq : readFloat? d.text.toList = some d.reading
  isFinite_reading : (Exact.ofFloat d.reading).isFinite = true

/-- What was printed as a decimal is read as a finite float. -/
theorem isReadable_of_fixed? {a : Quantity} {d : FixedPoint 3} (h : a.fixed? 3 = .ok d)
    (hfinite : d.isFinite = true) : d.IsReadable := by
  obtain ⟨q, x, hx, hq⟩ := Quantity.exists_denotes_of_fixed? h hfinite
  rw [Quantity.fixed?, hx] at h
  cases h
  obtain ⟨y, hread, hy⟩ := @Denotes.exists_readFloat? _ _ hq 3 (by norm_num) (by norm_num)
  have hreading : (ofFloat 3 x).reading = y := by
    rw [reading, hread, Option.getD_some]
  exact ⟨hfinite, hreading ▸ hread, hreading ▸ isFinite_iff_denotes.mpr ⟨_, hy⟩⟩

end FixedPoint

/-- All coordinates on the line are read as finite floats. -/
def ProgramLine.IsReadable (line : ProgramLine) : Prop := ∀ d ∈ line.coordinates, d.IsReadable

/-! ## What a line does -/

namespace HeadState

/-- A coordinate after a line that gives `d` for it. -/
def shift (h : HeadState) (old : Float) (d : FixedPoint 3) : Float :=
  if h.positioning = .absolute then d.reading else old + d.reading

/-- The head moves on to a place at the feed rate. -/
def feedTo (h : HeadState) (target : HeadPosition) : HeadState × LineOutcome :=
  ({ h with position := target }, .moved .feed ⟨h.position.point, target.point, false⟩)

def obey (h : HeadState) : ProgramLine → HeadState × LineOutcome
  | .comment _ => (h, .blank)
  | .millimetres => (h, .idle)
  | .absolute => ({ h with positioning := .absolute }, .idle)
  | .feedRate _ => (h, .idle)
  | .place x y =>
    let target : HeadPosition := ⟨x.reading, y.reading, h.position.z⟩
    ({ h with position := target }, .moved .rapid ⟨h.position.point, target.point, true⟩)
  | .laserOn => (h, .idle)
  | .relative => ({ h with positioning := .relative }, .idle)
  | .burn delta _ => h.feedTo { h.position with x := h.shift h.position.x delta }
  | .advance delta => h.feedTo { h.position with y := h.shift h.position.y delta }
  | .laserOff => (h, .idle)
  | .restoreAbsolute => ({ h with positioning := .absolute }, .idle)

end HeadState

/-! ## Words of a line -/

theorem code?_zero : Word.code? ⟨'G', ['0']⟩ = some 0 := by decide +kernel

theorem code?_one : Word.code? ⟨'G', ['1']⟩ = some 1 := by decide +kernel

theorem code?_millimetres : Word.code? ⟨'G', ['2', '1']⟩ = some 21 := by decide +kernel

theorem code?_machine : Word.code? ⟨'G', ['5', '3']⟩ = some 53 := by decide +kernel

theorem code?_absolute : Word.code? ⟨'G', ['9', '0']⟩ = some 90 := by decide +kernel

theorem code?_relative : Word.code? ⟨'G', ['9', '1']⟩ = some 91 := by decide +kernel

theorem number?_of_isReadable (letter : Char) {d : FixedPoint 3} (h : d.IsReadable) :
    Word.number? ⟨letter, d.text.toList⟩ = some d.reading := by
  rw [Word.number?, h.readFloat?_eq, Option.filter_some, if_pos h.isFinite_reading]

/-- A word with another letter than an axis moves nothing. -/
theorem word_of_not_isAxis {w : Word} (h : HeadPosition.isAxis w.letter = false)
    (absolute : Bool) (p : HeadPosition) : p.word absolute w = p := by
  simp only [HeadPosition.isAxis, Bool.or_eq_false_iff, decide_eq_false_iff_not] at h
  rw [HeadPosition.word]
  split
  · rw [HeadPosition.modify, if_neg h.1.1, if_neg h.1.2, if_neg h.2]
  · rfl

def ProgramLine.codes (positioning : Positioning) : ProgramLine → LineCodes
  | .absolute | .restoreAbsolute => ⟨.absolute, false, none⟩
  | .relative => ⟨.relative, false, none⟩
  | .place _ _ => ⟨positioning, true, some .rapid⟩
  | .burn _ _ | .advance _ => ⟨positioning, false, some .feed⟩
  | _ => ⟨positioning, false, none⟩

theorem ofWords_words (positioning : Positioning) (line : ProgramLine) :
    LineCodes.ofWords positioning line.words = line.codes positioning := by
  cases line <;>
    simp [ProgramLine.words, ProgramLine.runs, ProgramLine.codes, LineCodes.ofWords,
      LineCodes.word, LineCodes.code, LineCodes.motionOf?, code?_zero, code?_one,
      code?_millimetres, code?_machine, code?_absolute, code?_relative]

/-- A word with a readable coordinate is no bad one, and neither is a word for no axis. -/
theorem isBadCoordinate_of_isReadable {letter : Char} {d : FixedPoint 3} (h : d.IsReadable) :
    ¬ Word.isBadCoordinate ⟨letter, d.text.toList⟩ = true := by
  rw [Word.isBadCoordinate, number?_of_isReadable _ h, Option.isNone_some, Bool.and_false]
  exact Bool.false_ne_true

/-- A line with readable coordinates holds no bad one. -/
theorem find?_isBadCoordinate {line : ProgramLine} (h : line.IsReadable) :
    line.words.find? Word.isBadCoordinate = none := by
  rw [List.find?_eq_none]
  cases line with
  | place x y =>
    have hx := h x List.mem_cons_self
    have hy := h y (List.mem_cons_of_mem _ List.mem_cons_self)
    refine List.forall_mem_cons.mpr ⟨Bool.false_ne_true, List.forall_mem_cons.mpr
      ⟨Bool.false_ne_true, List.forall_mem_cons.mpr ⟨isBadCoordinate_of_isReadable hx,
        List.forall_mem_singleton.mpr (isBadCoordinate_of_isReadable hy)⟩⟩⟩
  | burn delta power =>
    have hdelta := h delta List.mem_cons_self
    exact List.forall_mem_cons.mpr ⟨Bool.false_ne_true, List.forall_mem_cons.mpr
      ⟨isBadCoordinate_of_isReadable hdelta, List.forall_mem_singleton.mpr Bool.false_ne_true⟩⟩
  | advance delta =>
    have hdelta := h delta List.mem_cons_self
    exact List.forall_mem_cons.mpr ⟨Bool.false_ne_true,
      List.forall_mem_singleton.mpr (isBadCoordinate_of_isReadable hdelta)⟩
  | comment _ => exact List.forall_mem_nil _
  | _ => exact List.forall_mem_singleton.mpr Bool.false_ne_true

theorem word_x {d : FixedPoint 3} (h : d.IsReadable) (absolute : Bool) (p : HeadPosition) :
    p.word absolute ⟨'X', d.text.toList⟩
      = { p with x := if absolute then d.reading else p.x + d.reading } := by
  rw [HeadPosition.word, number?_of_isReadable _ h]
  rfl

theorem word_y {d : FixedPoint 3} (h : d.IsReadable) (absolute : Bool) (p : HeadPosition) :
    p.word absolute ⟨'Y', d.text.toList⟩
      = { p with y := if absolute then d.reading else p.y + d.reading } := by
  rw [HeadPosition.word, number?_of_isReadable _ h]
  rfl

/-- Following the words of a line does what the line does. -/
theorem words_eq_obey (h : HeadState) (number : ℕ) {line : ProgramLine} (hline : line.IsReadable)
    (hne : line.words ≠ []) : h.words true number line.words = .ok (h.obey line) := by
  have hcodes := ofWords_words h.positioning line
  have hgood := find?_isBadCoordinate hline
  cases line with
  | comment _ => exact absurd rfl hne
  | place x y =>
    have hfollow : h.position.follow true (ProgramLine.place x y).words
        = ⟨x.reading, y.reading, h.position.z⟩ := by
      -- Four words stand on the line, and the two codes among them move nothing.
      change (((h.position.word true _).word true _).word true _).word true _ = _
      rw [word_y (hline y (List.mem_cons_of_mem _ List.mem_cons_self)),
        word_x (hline x List.mem_cons_self), word_of_not_isAxis rfl, word_of_not_isAxis rfl]
      rfl
    simp only [HeadState.words, hcodes, hgood, ProgramLine.codes, LineCodes.isAbsolute,
      Bool.true_or, if_true, hfollow]
    rfl
  | burn delta power =>
    have hfollow (absolute : Bool) :
        h.position.follow absolute (ProgramLine.burn delta power).words
          = { h.position with
              x := if absolute then delta.reading else h.position.x + delta.reading } := by
      change ((h.position.word absolute _).word absolute _).word absolute _ = _
      rw [word_of_not_isAxis rfl, word_x (hline delta List.mem_cons_self), word_of_not_isAxis rfl]
    simp only [HeadState.words, hcodes, hgood, ProgramLine.codes, LineCodes.isAbsolute,
      Bool.false_or, if_true, hfollow, decide_eq_true_iff]
    rfl
  | advance delta =>
    have hfollow (absolute : Bool) :
        h.position.follow absolute (ProgramLine.advance delta).words
          = { h.position with
              y := if absolute then delta.reading else h.position.y + delta.reading } := by
      change (h.position.word absolute _).word absolute _ = _
      rw [word_y (hline delta List.mem_cons_self), word_of_not_isAxis rfl]
    simp only [HeadState.words, hcodes, hgood, ProgramLine.codes, LineCodes.isAbsolute,
      Bool.false_or, if_true, hfollow, decide_eq_true_iff]
    rfl
  | _ =>
    simp only [HeadState.words, hcodes, ProgramLine.codes]
    rfl

/-! ## Reading a line -/

theorem trim_append_eq_self {first last : List Char} (hne : first ≠ []) (hne' : last ≠ [])
    (hfirst : ∀ c ∈ first.head?, isBlank c = false)
    (hlast : ∀ c ∈ last.getLast?, isBlank c = false) : trim (first ++ last) = first ++ last := by
  refine trim_eq_self ?_ ?_
  · rwa [List.head?_append_of_ne_nil _ hne]
  · rwa [List.getLast?_append_of_ne_nil _ hne']

/-- A line that is no remark is read as it is written. -/
theorem trim_text {line : ProgramLine} (hfinite : line.IsFinite) (hne : line.words ≠ []) :
    trim line.text.toList = line.text.toList ∧ isSkipped line.text.toList = false := by
  cases line with
  | comment _ => exact absurd rfl hne
  | feedRate rate =>
    rw [ProgramLine.text, String.toList_append, String.toList_append]
    exact ⟨trim_append_eq_self (List.cons_ne_nil _ _) (by decide) (by rintro c ⟨⟩; rfl) (by decide),
      rfl⟩
  | place x y =>
    simp only [ProgramLine.text, String.toList_append]
    exact ⟨trim_append_eq_self (List.cons_ne_nil _ _) (by decide) (by rintro c ⟨⟩; rfl) (by decide),
      rfl⟩
  | burn delta power =>
    have hpower : (toString power).toList ≠ [] := by
      cases power with
      | ofNat n =>
        rw [Int.ofNat_eq_natCast, toList_toString_natCast]
        exact Nat.toDigits_ne_nil
      | negSucc n =>
        rw [toList_toString_negSucc]
        exact List.cons_ne_nil _ _
    simp only [ProgramLine.text, String.toList_append]
    exact ⟨trim_append_eq_self (List.cons_ne_nil _ _) hpower (by rintro c ⟨⟩; rfl) fun c hc ↦
      isBlank_of_isNumeral (isNumeral_of_mem_toString (List.mem_of_mem_getLast? hc)), rfl⟩
  | advance delta =>
    have hdelta : delta.text.toList ≠ [] := by
      have hdelta := hfinite delta List.mem_cons_self
      cases delta with
      | finite negative units =>
        rw [FixedPoint.toList_text_finite]
        simp
      | infinite _ => cases hdelta
      | undefined => cases hdelta
    rw [ProgramLine.text, String.toList_append]
    exact ⟨trim_append_eq_self (List.cons_ne_nil _ _) hdelta (by rintro c ⟨⟩; rfl) fun c hc ↦
      isBlank_of_isNumeral (FixedPoint.isNumeral_of_mem_text (hfinite delta List.mem_cons_self)
        (List.mem_of_mem_getLast? hc)), rfl⟩
  | _ => decide

/-- Reading a written line strictly does what the line does. -/
theorem line_eq_obey (h : HeadState) (number : ℕ) {line : ProgramLine} (hline : line.IsReadable) :
    h.line true number (trim line.text.toList) = .ok (h.obey line) := by
  have hfinite : line.IsFinite := fun d hd ↦ (hline d hd).isFinite
  rcases eq_or_ne line.words [] with hnil | hne
  -- Only remarks have no words.
  · have hcomment : ∃ remark, line = .comment remark := by
      cases line <;> first | exact ⟨_, rfl⟩ | cases hnil
    obtain ⟨remark, rfl⟩ := hcomment
    obtain ⟨rest, hrest⟩ : ∃ rest, (ProgramLine.comment remark).text.toList = ';' :: rest :=
      ⟨_, String.toList_append⟩
    have htrim := trim_append_cons (c := ';') (by decide) [] rest
    rw [List.nil_append] at htrim
    rw [hrest, htrim]
    rfl
  · obtain ⟨htrim, hskip⟩ := trim_text hfinite hne
    rw [htrim, HeadState.line, hskip, if_neg Bool.false_ne_true,
      ProgramLine.ofLine_text hfinite]
    match hwords : line.words with
    | [] => exact absurd hwords hne
    | w :: rest =>
      have hobey := words_eq_obey h number hline hne
      rw [hwords] at hobey
      exact hobey

/-! ## Reading lines -/

/-- The toolpath after a line of a program. -/
def Toolpath.obey (t : Toolpath) (line : ProgramLine) : Toolpath :=
  t.outcome (trim line.text.toList) (t.state.obey line).1 (t.state.obey line).2

/-- Reading written lines strictly does what the lines do, one after the other. -/
theorem foldlM_line_eq_obey {lines : List ProgramLine} (h : ∀ line ∈ lines, line.IsReadable)
    (t : Toolpath) :
    (lines.map fun line ↦ line.text.toList).foldlM (Toolpath.line true) t
      = .ok (lines.foldl Toolpath.obey t) := by
  induction lines generalizing t with
  | nil => rfl
  | cons line rest ih =>
    have hline : t.line true line.text.toList = .ok (t.obey line) := by
      rw [Toolpath.line, line_eq_obey _ _ (h line List.mem_cons_self)]
      rfl
    rw [List.map_cons, List.foldlM_cons, hline, List.foldl_cons]
    exact ih (fun l hl ↦ h l (List.mem_cons_of_mem _ hl)) _

end Engraving
