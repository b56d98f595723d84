import Engraving.Proofs.Power
import Engraving.Proofs.Program.LineWords
import Engraving.Proofs.Program.Strides
import Engraving.Toolpath.Reading

/-!
# A program scans its raster

The exact replay of a finished program is a serpentine scan: one stroke for every pixel, the rows
from top to bottom, every second one from right to left, and one stroke down between two rows. The
raster is spanned by the printed start and the printed moves, and because a printed move has the
same digits in both directions, the head comes back to where the rows begin: that is the invariant
of the scan, `Raster.rowStart`.

## Contents

- `Raster`, `Raster.scan`: the scan as it is meant, pixel by pixel.
- `strokes_scanLines`: the lines of a scan are replayed as the scan.
- `exactReplay_compile`: the replay of a whole program.
-/

namespace Engraving

/-! ## Exact replay of a written program

A written program is replayed by reading every number on its lines exactly, as the rational number
that it is. The replay keeps the place of the head and whether coordinates are relative, and it
notes each stroke, the move along a `G1` line. No float arithmetic takes part, so that a stroke is
where the machine is told to go, and not where some reader of the program believes it goes.

The replay is defined on written lines of whatever origin. For the lines of a program it comes down
to one equation for every kind of line.
-/

/-- The move of the head along a `G1` line. -/
structure Stroke where
  start : Point ℚ
  finish : Point ℚ
  power? : Option ℚ
  deriving DecidableEq

/-- What a line finds when it is replayed. -/
structure ExactHead where
  place : Point ℚ := ⟨0, 0⟩
  relative : Bool := false
  deriving DecidableEq

namespace ExactHead

/-- Whether a code is among some words. -/
def hasCode (code : ℚ) (words : List Word) : Bool :=
  words.any fun w ↦ w.letter = 'G' && exactValue? w.value = some code

/-- The number behind the first word with a letter. -/
def number? (letter : Char) (words : List Word) : Option ℚ :=
  (words.find? fun w ↦ w.letter = letter).bind fun w ↦ exactValue? w.value

/-- Where a coordinate is after some words. A machine move tells places in any case. -/
def target (relative : Bool) (words : List Word) (letter : Char) (old : ℚ) : ℚ :=
  match number? letter words with
  | some q => if relative && !hasCode 53 words then old + q else q
  | none => old

def words (h : ExactHead) (words : List Word) : ExactHead × Option Stroke :=
  let relative := hasCode 91 words || (!hasCode 90 words && h.relative)
  let place : Point ℚ :=
    if hasCode 0 words || hasCode 1 words then
      ⟨target relative words 'X' h.place.x, target relative words 'Y' h.place.y⟩
    else h.place
  (⟨place, relative⟩,
    if hasCode 1 words then some ⟨h.place, place, number? 'S' words⟩ else none)

def line (h : ExactHead) (text : String) : ExactHead × Option Stroke :=
  h.words (Word.ofLine text.toList)

/-- The strokes along some written lines. -/
def strokes (h : ExactHead) : List String → List Stroke
  | [] => []
  | text :: rest => (h.line text).2.toList ++ (h.line text).1.strokes rest

end ExactHead

/-- The strokes of a written program, from the origin on. -/
def exactReplay (lines : List String) : List Stroke := ({} : ExactHead).strokes lines

/-! ### The lines of a program -/

namespace ExactHead

variable (h : ExactHead) {rest : List String}

theorem strokes_cons_of_line {text : String} {h' : ExactHead} {stroke? : Option Stroke}
    (hline : h.line text = (h', stroke?)) :
    h.strokes (text :: rest) = stroke?.toList ++ h'.strokes rest := by
  rw [strokes, hline]

/-- A line without coordinates leaves no stroke; what it does to the mode is told by its words. -/
theorem strokes_cons_of_words {line : ProgramLine} (hline : line.coordinates = []) {h' : ExactHead}
    (hwords : h.words line.words = (h', none)) :
    h.strokes (line.text :: rest) = h'.strokes rest := by
  have hfinite := ProgramLine.isFinite_of_coordinates_eq_nil hline
  rw [strokes, ExactHead.line, ProgramLine.ofLine_text hfinite, hwords]
  rfl

theorem strokes_comment (text : String) :
    h.strokes ((ProgramLine.comment text).text :: rest) = h.strokes rest :=
  h.strokes_cons_of_words rfl rfl

section coordinates

variable {d x y : FixedPoint 3} {v a b : ℚ} (p : Point ℚ)

/-- The machine move puts the head at its coordinates, whatever the mode. -/
theorem line_place (hx : x.value? = some a) (hy : y.value? = some b) :
    h.line (ProgramLine.place x y).text = (⟨⟨a, b⟩, h.relative⟩, none) := by
  have hfinite : (ProgramLine.place x y).IsFinite :=
    List.forall_mem_cons.mpr ⟨FixedPoint.isFinite_iff_value?.mpr ⟨a, hx⟩,
      List.forall_mem_singleton.mpr (FixedPoint.isFinite_iff_value?.mpr ⟨b, hy⟩)⟩
  have hX : number? 'X' (ProgramLine.place x y).words = some a :=
    (FixedPoint.exactValue?_text (by norm_num) x).trans hx
  have hY : number? 'Y' (ProgramLine.place x y).words = some b :=
    (FixedPoint.exactValue?_text (by norm_num) y).trans hy
  -- The code 53 overrules the mode.
  have hmachine : hasCode 53 (ProgramLine.place x y).words = true := rfl
  rw [ExactHead.line, ProgramLine.ofLine_text hfinite, words]
  simp only [target, hX, hY, hmachine, Bool.not_true, Bool.and_false]
  rfl

theorem line_burn (hd : d.value? = some v) (power : ℕ) :
    (⟨p, true⟩ : ExactHead).line (ProgramLine.burn d power).text
      = (⟨⟨p.x + v, p.y⟩, true⟩, some ⟨p, ⟨p.x + v, p.y⟩, some (power : ℚ)⟩) := by
  have hfinite : (ProgramLine.burn d power).IsFinite :=
    List.forall_mem_singleton.mpr (FixedPoint.isFinite_iff_value?.mpr ⟨v, hd⟩)
  have hX : number? 'X' (ProgramLine.burn d power).words = some v :=
    (FixedPoint.exactValue?_text (by norm_num) d).trans hd
  have hY : number? 'Y' (ProgramLine.burn d power).words = none := rfl
  have hS : number? 'S' (ProgramLine.burn d power).words = some (power : ℚ) := by
    change exactValue? (toString (power : ℤ)).toList = _
    rw [toList_toString_natCast, exactValue?_toDigits]
  rw [ExactHead.line, ProgramLine.ofLine_text hfinite, words]
  simp only [target, hX, hY, hS]
  rfl

theorem line_advance (hd : d.value? = some v) :
    (⟨p, true⟩ : ExactHead).line (ProgramLine.advance d).text
      = (⟨⟨p.x, p.y + v⟩, true⟩, some ⟨p, ⟨p.x, p.y + v⟩, none⟩) := by
  have hfinite : (ProgramLine.advance d).IsFinite :=
    List.forall_mem_singleton.mpr (FixedPoint.isFinite_iff_value?.mpr ⟨v, hd⟩)
  have hX : number? 'X' (ProgramLine.advance d).words = none := rfl
  have hY : number? 'Y' (ProgramLine.advance d).words = some v :=
    (FixedPoint.exactValue?_text (by norm_num) d).trans hd
  rw [ExactHead.line, ProgramLine.ofLine_text hfinite, words]
  simp only [target, hX, hY]
  rfl

end coordinates

end ExactHead

/-! ## Rasters -/

/-- Where the pixels of an engraving lie. -/
structure Raster where
  left : ℚ
  top : ℚ
  step : ℚ
  pitch : ℚ

namespace Raster

variable (r : Raster)

/-- The place on row `y` where column `x` begins. -/
def corner (x y : ℕ) : Point ℚ := ⟨r.left + x * r.step, r.top - y * r.pitch⟩

/-- The stroke along the pixel in column `x` of row `y`: to the right on even rows, to the left on
odd ones. -/
def burn (y x : ℕ) (power : ℚ) : Stroke :=
  if y % 2 = 0 then ⟨r.corner x y, r.corner (x + 1) y, some power⟩
  else ⟨r.corner (x + 1) y, r.corner x y, some power⟩

/-- The strokes along a row, whose powers are given from left to right. -/
def row (y : ℕ) (powers : List ℚ) : List Stroke :=
  if y % 2 = 0 then powers.mapIdx (r.burn y) else (powers.mapIdx (r.burn y)).reverse

/-- Where the head is after row `y` of so many columns. -/
def rowEnd (columns y : ℕ) : Point ℚ := r.corner (if y % 2 = 0 then columns else 0) y

/-- The stroke from the end of row `y` to the next row. -/
def descent (columns y : ℕ) : Stroke :=
  ⟨r.rowEnd columns y, r.corner (if y % 2 = 0 then columns else 0) (y + 1), none⟩

/-- The strokes of the rows from row `y` on. -/
def scan (y : ℕ) : List (List ℚ) → List Stroke
  | [] => []
  | powers :: rest =>
    r.row y powers ++
      ((if rest.isEmpty then [] else [r.descent powers.length y]) ++ scan (y + 1) rest)

/-- Where the head is before row `y` of so many columns. -/
def rowStart (columns y : ℕ) : Point ℚ := r.corner (if y % 2 = 0 then 0 else columns) y

theorem corner_right (x y : ℕ) :
    r.corner (x + 1) y = ⟨(r.corner x y).x + r.step, (r.corner x y).y⟩ := by
  rw [corner, corner, Point.mk.injEq, Nat.cast_succ]
  exact ⟨by ring, rfl⟩

theorem corner_left (x y : ℕ) :
    r.corner x y = ⟨(r.corner (x + 1) y).x + -r.step, (r.corner (x + 1) y).y⟩ := by
  rw [corner_right, add_neg_cancel_right]

theorem corner_down (x y : ℕ) :
    r.corner x (y + 1) = ⟨(r.corner x y).x, (r.corner x y).y + -r.pitch⟩ := by
  rw [corner, corner, Point.mk.injEq, Nat.cast_succ]
  exact ⟨rfl, by ring⟩

theorem burn_of_even {y : ℕ} (hy : y % 2 = 0) : r.burn y = fun x power ↦
    ⟨r.corner x y, r.corner (x + 1) y, some power⟩ := by
  funext x power
  rw [burn, if_pos hy]

theorem burn_of_odd {y : ℕ} (hy : y % 2 ≠ 0) : r.burn y = fun x power ↦
    ⟨r.corner (x + 1) y, r.corner x y, some power⟩ := by
  funext x power
  rw [burn, if_neg hy]

theorem rowStart_succ (columns y : ℕ) :
    r.rowStart columns (y + 1) = r.corner (if y % 2 = 0 then columns else 0) (y + 1) := by
  rw [rowStart]
  rcases Nat.mod_two_eq_zero_or_one y with hy | hy
  · rw [if_neg (by omega), if_pos hy]
  · rw [if_pos (by omega), if_neg (by omega)]

end Raster

/-! ## Replaying the lines of a scan -/

section scan

variable (r : Raster) {strides : Strides} (rest : List String)

/-- A row written from left to right, from column `k` on. -/
theorem strokes_rightwards (hright : strides.right.value? = some r.step) (powers : List ℕ)
    (k y : ℕ) :
    (⟨r.corner k y, true⟩ : ExactHead).strokes
        (powers.map (fun power : ℕ ↦ (ProgramLine.burn strides.right power).text) ++ rest)
      = (powers.map (Nat.cast : ℕ → ℚ)).mapIdx
          (fun x power ↦ ⟨r.corner (k + x) y, r.corner (k + x + 1) y, some power⟩) ++
        (⟨r.corner (k + powers.length) y, true⟩ : ExactHead).strokes rest := by
  induction powers generalizing k with
  | nil => rfl
  | cons power later ih =>
    have hshift (x : ℕ) : k + 1 + x = k + (x + 1) := by omega
    rw [List.map_cons, List.cons_append,
      ExactHead.strokes_cons_of_line _ (ExactHead.line_burn _ hright power), ← r.corner_right, ih,
      List.map_cons, List.mapIdx_cons, List.length_cons, hshift]
    simp only [hshift]
    rfl

/-- A row written from right to left, down to the first column. -/
theorem strokes_leftwards (hleft : strides.left.value? = some (-r.step)) (powers : List ℕ)
    (y : ℕ) :
    (⟨r.corner powers.length y, true⟩ : ExactHead).strokes
        (powers.map (fun power : ℕ ↦ (ProgramLine.burn strides.left power).text) ++ rest)
      = ((powers.reverse.map (Nat.cast : ℕ → ℚ)).mapIdx
          (fun x power ↦ ⟨r.corner (x + 1) y, r.corner x y, some power⟩)).reverse ++
        (⟨r.corner 0 y, true⟩ : ExactHead).strokes rest := by
  induction powers with
  | nil => rfl
  | cons power later ih =>
    -- The first line written is for the last column, so its stroke ends up at the back.
    rw [List.map_cons, List.cons_append,
      ExactHead.strokes_cons_of_line _ (ExactHead.line_burn _ hleft power), List.length_cons,
      ← r.corner_left, ih, List.reverse_cons, List.map_append, List.map_singleton,
      List.mapIdx_concat, List.reverse_append, List.length_map, List.length_reverse]
    rfl

theorem strokes_rowLines (powers : List ℕ)
    (hright : powers ≠ [] → strides.right.value? = some r.step)
    (hleft : powers ≠ [] → strides.left.value? = some (-r.step)) (y : ℕ) :
    (⟨r.rowStart powers.length y, true⟩ : ExactHead).strokes
        ((rowLines strides (y % 2 == 0) powers).map ProgramLine.text ++ rest)
      = r.row y (powers.map Nat.cast) ++
        (⟨r.rowEnd powers.length y, true⟩ : ExactHead).strokes rest := by
  -- Without pixels the printed steps need not be numbers at all.
  rcases eq_or_ne powers [] with rfl | hne
  · have hlines : rowLines strides (y % 2 == 0) [] = [] := by
      cases y % 2 == 0 <;> rfl
    have hstrokes : r.row y [] = [] := ite_self []
    rw [Raster.rowStart, Raster.rowEnd, List.length_nil, ite_self, hlines, List.map_nil,
      List.map_nil, hstrokes]
    rfl
  rw [rowLines, List.map_map, Raster.rowStart, Raster.rowEnd, Raster.row]
  rcases Nat.mod_two_eq_zero_or_one y with hy | hy
  · have hforth := strokes_rightwards r rest (hright hne) powers 0 y
    simp only [zero_add] at hforth
    rw [r.burn_of_even hy, hy]
    exact hforth
  · have hback := strokes_leftwards r rest (hleft hne) powers.reverse y
    rw [List.length_reverse, List.reverse_reverse] at hback
    rw [r.burn_of_odd (by omega), hy]
    exact hback

theorem strokes_scanLines {columns : ℕ} {powers : List (List ℕ)}
    (hright : ∀ row ∈ powers, row ≠ [] → strides.right.value? = some r.step)
    (hleft : ∀ row ∈ powers, row ≠ [] → strides.left.value? = some (-r.step))
    (hlength : ∀ row ∈ powers, row.length = columns) (y : ℕ)
    (hdown : 1 < powers.length → strides.down.value? = some (-r.pitch)) :
    ∃ p, (⟨r.rowStart columns y, true⟩ : ExactHead).strokes
        ((scanLines strides y (y % 2 == 0) powers).map ProgramLine.text ++ rest)
      = r.scan y (powers.map (·.map Nat.cast)) ++ (⟨p, true⟩ : ExactHead).strokes rest := by
  induction powers generalizing y with
  | nil => exact ⟨_, rfl⟩
  | cons row later ih =>
    obtain rfl := hlength row List.mem_cons_self
    have hrow (rest : List String) := strokes_rowLines r rest row
      (hright row List.mem_cons_self) (hleft row List.mem_cons_self) y
    match later with
    | [] =>
      refine ⟨r.rowEnd row.length y, ?_⟩
      rw [scanLines, List.map_cons, List.cons_append, ExactHead.strokes_comment, List.map_append,
        List.append_assoc, hrow, List.map_cons, Raster.scan, List.length_map, List.append_assoc]
      rfl
    | next :: later =>
      have hdown' := hdown (by simp)
      obtain ⟨p, hp⟩ := ih (fun row' h ↦ hright row' (List.mem_cons_of_mem _ h))
        (fun row' h ↦ hleft row' (List.mem_cons_of_mem _ h))
        (fun row' h ↦ hlength row' (List.mem_cons_of_mem _ h)) (y + 1) (fun _ ↦ hdown')
      have hdirection : ((y + 1) % 2 == 0) = !(y % 2 == 0) := by
        rcases Nat.mod_two_eq_zero_or_one y with hy | hy
        · rw [hy, show (y + 1) % 2 = 1 by omega]
          rfl
        · rw [hy, show (y + 1) % 2 = 0 by omega]
          rfl
      -- The descent leads from the end of this row to where the next one begins.
      have hadvance (rest : List String) : (⟨r.rowEnd row.length y, true⟩ : ExactHead).strokes
          ((ProgramLine.advance strides.down).text :: rest)
          = r.descent row.length y ::
            (⟨r.rowStart row.length (y + 1), true⟩ : ExactHead).strokes rest := by
        rw [ExactHead.strokes_cons_of_line _ (ExactHead.line_advance _ hdown'), Raster.descent,
          Raster.rowStart_succ, Raster.rowEnd, ← Raster.corner_down]
        rfl
      refine ⟨p, ?_⟩
      rw [hdirection] at hp
      rw [scanLines, List.map_cons, List.cons_append, ExactHead.strokes_comment, List.map_append,
        List.append_assoc, hrow, List.map_append, List.append_assoc, List.map_cons, Raster.scan,
        List.append_assoc, List.append_assoc, List.length_map]
      have hrest := hadvance ((scanLines strides (y + 1) (!(y % 2 == 0)) (next :: later)).map
        ProgramLine.text ++ rest)
      rw [hp] at hrest
      exact congrArg (r.row y (row.map Nat.cast) ++ ·) hrest

end scan

/-! ## Replaying a program -/

/-- The remarks at the head of a program leave no stroke. -/
theorem strokes_headerLines (h : ExactHead) (grid : Grid) (width height : FixedPoint 2)
    (maxPower feedRate : String) (rest : List String) :
    h.strokes ((headerLines grid width height maxPower feedRate).map ProgramLine.text ++ rest)
      = h.strokes rest :=
  (h.strokes_comment _).trans ((h.strokes_comment _).trans
    ((h.strokes_comment _).trans (h.strokes_comment _)))

/-- The preparation leaves the head at its start, in relative mode. -/
theorem strokes_preambleLines (h : ExactHead) (rate : ℤ) {left top : FixedPoint 3} {a b : ℚ}
    (hleft : left.value? = some a) (htop : top.value? = some b) (rest : List String) :
    h.strokes ((preambleLines rate left top).map ProgramLine.text ++ rest)
      = (⟨⟨a, b⟩, true⟩ : ExactHead).strokes rest := by
  have hmodes (rest : List String) : h.strokes
      ((ProgramLine.millimetres).text :: (ProgramLine.absolute).text ::
        (ProgramLine.feedRate rate).text :: rest)
      = ({ h with relative := false } : ExactHead).strokes rest :=
    (ExactHead.strokes_cons_of_words _ rfl rfl).trans
      ((ExactHead.strokes_cons_of_words _ rfl rfl).trans
        (ExactHead.strokes_cons_of_words _ rfl rfl))
  have hplace := ExactHead.line_place { h with relative := false } hleft htop
  have hstart (rest : List String) : (⟨⟨a, b⟩, false⟩ : ExactHead).strokes
      ((ProgramLine.laserOn).text :: (ProgramLine.relative).text :: rest)
      = (⟨⟨a, b⟩, true⟩ : ExactHead).strokes rest :=
    (ExactHead.strokes_cons_of_words _ rfl rfl).trans (ExactHead.strokes_cons_of_words _ rfl rfl)
  exact (hmodes _).trans ((ExactHead.strokes_cons_of_line _ hplace).trans (hstart rest))

/-- The program of a plan is replayed as the scan of its powers. -/
theorem Plan.exactReplay_lines {α : Type} [Checked α] {s : Setting α} {grid : Grid}
    {startX startY : α} (p : Plan s grid startX startY) (r : Raster)
    (hstart : p.left.value? = some r.left ∧ p.top.value? = some r.top)
    (hstep : 0 < grid.width → 0 < grid.height →
      s.strides.right.value? = some r.step ∧ s.strides.left.value? = some (-r.step))
    (hpitch : 1 < grid.height → s.strides.down.value? = some (-r.pitch)) :
    exactReplay (p.lines.map ProgramLine.text)
      = r.scan 0 (p.powers.map (·.map Nat.cast)) := by
  have hstrides : ∀ row ∈ p.powers, row ≠ [] →
      s.strides.right.value? = some r.step ∧ s.strides.left.value? = some (-r.step) := by
    intro row hrow hne
    refine hstep ?_ ?_
    · rw [← p.length_of_mem_powers hrow]
      exact_mod_cast List.length_pos_iff.mpr hne
    · rw [← p.length_powers]
      exact List.length_pos_of_mem hrow
  have hcolumns : ∀ row ∈ p.powers, row.length = grid.width.toNat := by
    intro row hrow
    have hlength := p.length_of_mem_powers hrow
    omega
  have hcorner : r.rowStart grid.width.toNat 0 = ⟨r.left, r.top⟩ := by
    rw [Raster.rowStart, if_pos rfl, Raster.corner, Nat.cast_zero, zero_mul, zero_mul, add_zero,
      sub_zero]
  obtain ⟨q, hscan⟩ := strokes_scanLines r (footerLines.map ProgramLine.text)
    (fun row hrow hne ↦ (hstrides row hrow hne).1) (fun row hrow hne ↦ (hstrides row hrow hne).2)
    hcolumns 0 (fun h ↦ hpitch (p.length_powers ▸ h))
  -- Behind the scan nothing moves, wherever it has ended.
  have hfooter : (⟨q, true⟩ : ExactHead).strokes (footerLines.map ProgramLine.text) = [] :=
    (ExactHead.strokes_cons_of_words _ rfl rfl).trans (ExactHead.strokes_cons_of_words _ rfl rfl)
  rw [hfooter, List.append_nil, hcorner] at hscan
  rw [exactReplay, Plan.lines, List.map_append, List.map_append, List.map_append,
    strokes_headerLines, strokes_preambleLines _ _ hstart.1 hstart.2]
  exact hscan

/-! ## The raster that is printed -/

/-- The raster is the one that the numbers in a program span: the place where the head is put, the
step as soon as there is a pixel, and the row pitch as soon as there are two rows. -/
structure Raster.IsPrinted (r : Raster) (s : Setting Quantity) (grid : Grid)
    (lines : List ProgramLine) : Prop where
  start : ∃ x y : FixedPoint 3, ProgramLine.place x y ∈ lines ∧
    x.value? = some r.left ∧ y.value? = some r.top
  step : 0 < grid.width → 0 < grid.height →
    ∃ d : FixedPoint 3, Checked.fixed? 3 s.step = .ok d ∧ d.value? = some r.step
  pitch : 1 < grid.height →
    ∃ d : FixedPoint 3, Checked.fixed? 3 s.rowPitch = .ok d ∧ d.value? = some r.pitch

namespace Raster.IsPrinted

variable {r : Raster} {s : Setting Quantity} {grid : Grid} {lines : List ProgramLine}
  (h : r.IsPrinted s grid lines)

include h

theorem exists_step (hwidth : 0 < grid.width) (hheight : 0 < grid.height) :
    ∃ q, s.step.Denotes q ∧ 0 ≤ q ∧ r.step = nearestDecimal 3 q := by
  obtain ⟨d, hd, hvalue⟩ := h.step hwidth hheight
  obtain ⟨q, hq, heq⟩ := Quantity.exists_denotes_of_value? hd hvalue
  exact ⟨q, hq, hq.nonneg s.step_positive, heq⟩

theorem exists_pitch (hheight : 1 < grid.height) :
    ∃ q, s.rowPitch.Denotes q ∧ 0 ≤ q ∧ r.pitch = nearestDecimal 3 q := by
  obtain ⟨d, hd, hvalue⟩ := h.pitch hheight
  obtain ⟨q, hq, heq⟩ := Quantity.exists_denotes_of_value? hd hvalue
  exact ⟨q, hq, hq.nonneg s.rowPitch_positive, heq⟩

end Raster.IsPrinted

namespace Plan

variable {s : Setting Quantity} {grid : Grid} {startX startY : Quantity}
  (p : Plan s grid startX startY)

theorem exists_isPrinted (hfinite : ∀ line ∈ p.lines, line.IsFinite) :
    ∃ r : Raster, r.IsPrinted s grid p.lines := by
  obtain ⟨left, hleft⟩ := FixedPoint.isFinite_iff_value?.mp (p.isFinite_left hfinite)
  obtain ⟨top, htop⟩ := FixedPoint.isFinite_iff_value?.mp (p.isFinite_top hfinite)
  -- A step that no line prints may be infinite, and any number will do for it.
  obtain ⟨step, hstep⟩ : ∃ step : ℚ, 0 < grid.width → 0 < grid.height →
      ∃ d : FixedPoint 3, Checked.fixed? 3 s.step = .ok d ∧ d.value? = some step := by
    by_cases hpixel : 0 < grid.width ∧ 0 < grid.height
    · obtain ⟨q, hq, -⟩ := p.exists_step_denotes hfinite hpixel.1 hpixel.2
      exact ⟨_, fun _ _ ↦ hq.fixed? 3⟩
    · exact ⟨0, fun hwidth hheight ↦ absurd ⟨hwidth, hheight⟩ hpixel⟩
  obtain ⟨pitch, hpitch⟩ : ∃ pitch : ℚ, 1 < grid.height →
      ∃ d : FixedPoint 3, Checked.fixed? 3 s.rowPitch = .ok d ∧ d.value? = some pitch := by
    by_cases hheight : 1 < grid.height
    · obtain ⟨q, hq, -⟩ := p.exists_pitch_denotes hfinite hheight
      exact ⟨_, fun _ ↦ hq.fixed? 3⟩
    · exact ⟨0, fun h ↦ absurd h hheight⟩
  exact ⟨⟨left, top, step, pitch⟩, ⟨p.left, p.top, p.place_mem_lines, hleft, htop⟩, hstep, hpitch⟩

/-- The program of a plan is replayed as the scan of the raster that is printed. -/
theorem exactReplay_of_isPrinted {r : Raster} (h : r.IsPrinted s grid p.lines) :
    exactReplay (p.lines.map ProgramLine.text)
      = r.scan 0 (p.powers.map (·.map Nat.cast)) := by
  refine p.exactReplay_lines r ?_ (fun hwidth hheight ↦ ?_) fun hheight ↦ ?_
  · obtain ⟨x, y, hplace, hx, hy⟩ := h.start
    obtain ⟨rfl, rfl⟩ := p.eq_of_place_mem_lines hplace
    exact ⟨hx, hy⟩
  · obtain ⟨q, hq, -, heq⟩ := h.exists_step hwidth hheight
    rw [heq]
    exact ⟨value?_right hq, value?_left hq⟩
  · obtain ⟨q, hq, -, heq⟩ := h.exists_pitch hheight
    rw [heq]
    exact value?_down hq

end Plan

/-! ## The powers that are printed -/

end Engraving
