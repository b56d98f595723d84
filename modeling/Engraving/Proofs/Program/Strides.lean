import Engraving.Proofs.Number.FixedPoint
import Engraving.Proofs.Program.Emission
import Engraving.Proofs.Program.LineWords

/-!
# The strides of a program with finite coordinates

A coordinate that is printed as a decimal was a finite number before. So when all coordinates of a
program are decimals, the step has a value as soon as there is a pixel, and the row pitch as soon as
there are two rows; and the two directions of a row have the same stride but for the sign.
-/

namespace Engraving

/-- A grid with rows that is not of width zero has pixels. -/
theorem Grid.width_pos {grid : Grid} (hwidth : grid.width ≠ 0) (hheight : grid.height ≠ 0) :
    0 < grid.width := by
  obtain ⟨row, hrow⟩ := List.exists_mem_of_length_pos (Nat.pos_of_ne_zero hheight)
  have hlength := grid.uniform row hrow
  omega

/-- All coordinates in the lines of a workpiece are decimals. -/
def Workpiece.HasFiniteCoordinates {α : Type} (w : Workpiece α) : Prop :=
  ∀ line ∈ w.lines.toList, line.IsFinite

instance {α : Type} : DecidablePred (@Workpiece.HasFiniteCoordinates α) := fun w ↦
  inferInstanceAs (Decidable (∀ line ∈ w.lines.toList, line.IsFinite))

/-! ## The values of strides -/

section value

variable {s : Setting Quantity} {q : ℚ}

theorem value?_printed {a : Quantity} (h : a.Denotes q) :
    (printed a).value? = some (nearestDecimal 3 q) := by
  obtain ⟨d, hd, hvalue⟩ := h.fixed? 3
  rw [printed_eq hd, hvalue]

theorem value?_right (h : s.step.Denotes q) :
    s.strides.right.value? = some (nearestDecimal 3 q) :=
  value?_printed h

theorem value?_left (h : s.step.Denotes q) :
    s.strides.left.value? = some (-nearestDecimal 3 q) := by
  rw [← nearestDecimal_neg]
  exact value?_printed h.neg

theorem value?_down (h : s.rowPitch.Denotes q) :
    s.strides.down.value? = some (-nearestDecimal 3 q) := by
  rw [← nearestDecimal_neg]
  exact value?_printed h.neg

theorem Setting.rowPitch_positive {α : Type} [Checked α] (s : Setting α) :
    Checked.isNonpositive s.rowPitch = false := by
  rw [Setting.rowPitch]
  match h : s.lineStep? with
  | none => exact s.step_positive
  | some lineStep => exact s.lineStep_positive lineStep h

end value

/-! ## The shape of a plan -/

namespace Plan

section shape

variable {α : Type} [Checked α] {s : Setting α} {grid : Grid} {startX startY : α}
  (p : Plan s grid startX startY)

theorem forall₂_powers :
    List.Forall₂ (fun grays powers ↦ powers? s.maxPower s.invert grays = .ok powers)
      grid.rows p.powers :=
  mapM_eq_ok_iff.mp p.powers_eq

theorem length_powers : p.powers.length = grid.height := p.forall₂_powers.length_eq.symm

theorem length_of_mem_powers {row : List ℕ} (h : row ∈ p.powers) :
    (row.length : ℤ) = grid.width := by
  have hrows : List.Forall₂ (fun grays powers ↦ (powers.length : ℤ) = grid.width)
      grid.rows p.powers := by
    refine ((List.forall₂_and_left _ _).mpr ⟨grid.uniform, p.forall₂_powers⟩).imp ?_
    rintro grays powers ⟨hgrays, hpowers⟩
    rw [← hgrays, (mapM_eq_ok_iff.mp hpowers).length_eq]
  obtain ⟨i, hi, rfl⟩ := List.getElem_of_mem h
  have hget := hrows.get (by rwa [hrows.length_eq]) hi
  exact hget

theorem place_mem_lines : ProgramLine.place p.left p.top ∈ p.lines := by
  rw [lines, preambleLines]
  simp

theorem eq_of_place_mem_lines {x y : FixedPoint 3} (h : ProgramLine.place x y ∈ p.lines) :
    x = p.left ∧ y = p.top := by
  cases isLine_of_mem_lines h with
  | header h => simp [headerLines] at h
  | mode h => simp at h
  | place => exact ⟨rfl, rfl⟩
  | scan h => cases h

/-- The only coordinates of a program are its start and its strides. -/
theorem coordinate_cases {line : ProgramLine} (hline : line ∈ p.lines) {d : FixedPoint 3}
    (hd : d ∈ line.coordinates) :
    d ∈ [p.left, p.top, s.strides.right, s.strides.left, s.strides.down] := by
  cases isLine_of_mem_lines hline with
  | header h =>
    simp only [headerLines, List.mem_cons, List.not_mem_nil, or_false] at h
    rcases h with rfl | rfl | rfl | rfl <;> cases hd
  | mode h =>
    simp only [List.mem_cons, List.not_mem_nil, or_false] at h
    rcases h with rfl | rfl | rfl | rfl | rfl | rfl | rfl <;> cases hd
  | place => exact List.mem_append_left [s.strides.right, s.strides.left, s.strides.down] hd
  | scan h =>
    cases h with
    | comment y => cases hd
    | right power | left power | down =>
      obtain rfl := List.mem_singleton.mp hd
      simp

/-- A row of pixels begins with a stride to the right. -/
theorem exists_burn_mem_lines (hwidth : 0 < grid.width) (hheight : 0 < grid.height) :
    ∃ power, ProgramLine.burn s.strides.right power ∈ p.lines := by
  have hlength := p.length_powers
  match hpowers : p.powers with
  | [] =>
    rw [hpowers, List.length_nil] at hlength
    omega
  | [] :: rest =>
    have hempty := p.length_of_mem_powers (hpowers ▸ List.mem_cons_self)
    rw [List.length_nil] at hempty
    omega
  | (power :: row) :: rest =>
    refine ⟨power, ?_⟩
    rw [lines, hpowers, scanLines, rowLines]
    simp

/-- A row that is followed by another ends with a stride down. -/
theorem advance_mem_lines (hheight : 1 < grid.height) :
    ProgramLine.advance s.strides.down ∈ p.lines := by
  have hlength := p.length_powers
  match hpowers : p.powers with
  | [] =>
    rw [hpowers, List.length_nil] at hlength
    omega
  | [_] =>
    rw [hpowers, List.length_singleton] at hlength
    omega
  | row :: next :: rest =>
    rw [lines, hpowers, scanLines]
    simp

end shape

section finite

variable {s : Setting Quantity} {grid : Grid} {startX startY : Quantity}
  (p : Plan s grid startX startY) (hfinite : ∀ line ∈ p.lines, line.IsFinite)

include hfinite

theorem isFinite_left : p.left.isFinite = true :=
  hfinite _ p.place_mem_lines _ List.mem_cons_self

theorem isFinite_top : p.top.isFinite = true :=
  hfinite _ p.place_mem_lines _ (List.mem_cons_of_mem _ List.mem_cons_self)

/-- As soon as there is a pixel, the step has a value. -/
theorem exists_step_denotes (hwidth : 0 < grid.width) (hheight : 0 < grid.height) :
    ∃ q, s.step.Denotes q ∧ 0 ≤ q := by
  obtain ⟨power, hmem⟩ := p.exists_burn_mem_lines hwidth hheight
  have hright := hfinite _ hmem _ List.mem_cons_self
  obtain ⟨q, hq⟩ := Quantity.exists_denotes_of_fixed? (fixed?_eq_printed hright) hright
  exact ⟨q, hq, hq.nonneg s.step_positive⟩

/-- As soon as there are two rows, the row pitch has a value. -/
theorem exists_pitch_denotes (hheight : 1 < grid.height) :
    ∃ q, s.rowPitch.Denotes q ∧ 0 ≤ q := by
  have hdown := hfinite _ (p.advance_mem_lines hheight) _ List.mem_cons_self
  obtain ⟨q, hq⟩ := Quantity.exists_denotes_of_fixed? (fixed?_eq_printed hdown) hdown
  have hpitch := Quantity.Denotes.of_neg hq
  exact ⟨-q, hpitch, hpitch.nonneg s.rowPitch_positive⟩

end finite

end Plan

/-! ## A small program -/

/-- A setting with oblong pixels. -/
def Setting.small : Setting Quantity where
  maxPower := .whole 80
  feedRate := .whole 1000
  step := .real 0.5
  lineStep? := some (.real 0.25)
  feedRate_positive := by decide
  step_positive := by decide +kernel
  lineStep_positive := by
    rintro _ ⟨⟩
    decide +kernel

/-- A grid of two rows. -/
def Grid.small : Grid where
  width := 3
  rows := [[0, 128, 255], [255, 7, 0]]
  uniform := by decide

theorem exists_compile?_small :
    ∃ w, compile? Setting.small Grid.small (.real 10) (.whole 20) = .ok w ∧
      w.HasFiniteCoordinates := by
  have hok : (match compile? Setting.small Grid.small (.real 10) (.whole 20) with
    | .ok w => decide w.HasFiniteCoordinates
    | .error _ => false) = true := by decide +kernel
  match h : compile? Setting.small Grid.small (.real 10) (.whole 20) with
  | .ok w =>
    rw [h] at hok
    exact ⟨w, rfl, of_decide_eq_true hok⟩
  | .error _ =>
    rw [h] at hok
    cases hok

end Engraving
