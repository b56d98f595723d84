import Engraving.Proofs.Power
import Engraving.Proofs.Program.Strides

/-!
# Stronger programs

Where more power is allowed, or an image is darker, the beam is nowhere weaker, and nothing else of
a program changes. Two programs of the same size are compared line by line: a line of the one is the
line of the other, but for the greatest power in the remark at the head and for the powers that are
burnt with. Every other number of a program comes from the size of the grid, from the rates and
distances of the setting and from the start point.

The order of powers holds pixel by pixel. The lines of two scans that begin in the same direction
burn the same pixels in the same order, `serpentine`, so it carries over to the lines.
-/

namespace Engraving

/-! ## Comparing grids and lines -/

/-- A grid burns at least as deep as another of its size: it is nowhere brighter, or nowhere darker
where it is the bright pixels that are burnt. -/
def Grid.BurnsDeeper (invert : Bool) (grid grid' : Grid) : Prop :=
  grid.width = grid'.width ∧
    List.Forall₂ (List.Forall₂ fun gray gray' ↦ if invert then gray' ≤ gray else gray ≤ gray')
      grid.rows grid'.rows

/-- A written line beside the line in its place in a weaker program. The powers of the two programs
lie below their own ceilings. -/
inductive Outshines (ceiling ceiling' : ℕ) : String → String → Prop
  | same {line : ProgramLine} (h : ∀ delta power, line ≠ .burn delta power) :
    Outshines ceiling ceiling' line.text line.text
  | maxPower (given given' feedRate : String) :
    Outshines ceiling ceiling'
      ("; Max power: " ++ given ++ "%, feed rate: " ++ feedRate ++ "mm/min")
      ("; Max power: " ++ given' ++ "%, feed rate: " ++ feedRate ++ "mm/min")
  /-- A move differs in its power, which is no less in the stronger program. -/
  | burn (delta : FixedPoint 3) {power power' : ℕ} (hceiling : power ≤ ceiling)
    (hceiling' : power' ≤ ceiling') (hle : power' ≤ power) :
    Outshines ceiling ceiling' ("G1 X" ++ delta.text ++ "S" ++ toString power)
      ("G1 X" ++ delta.text ++ "S" ++ toString power')

/-- A power of a pixel beside the power of that pixel in a weaker program. -/
def PowerOutshines (ceiling ceiling' power power' : ℕ) : Prop :=
  power ≤ ceiling ∧ power' ≤ ceiling' ∧ power' ≤ power

/-! ## The pixels that lines burn -/

def ProgramLine.power? : ProgramLine → Option ℤ
  | .burn _ power => some power
  | _ => none

/-- The entries of some rows in the order of a scan: every second row from right to left. -/
def serpentine {δ : Type} : Bool → List (List δ) → List δ
  | _, [] => []
  | leftToRight, row :: rest =>
    (if leftToRight then row else row.reverse) ++ serpentine (!leftToRight) rest

theorem filterMap_power?_rowLines (strides : Strides) (leftToRight : Bool) (powers : List ℕ) :
    (rowLines strides leftToRight powers).filterMap ProgramLine.power?
      = (if leftToRight then powers else powers.reverse).map Nat.cast := by
  rw [rowLines, List.filterMap_map]
  exact congrFun List.filterMap_eq_map _

theorem filterMap_power?_scanLines (strides : Strides) (y : ℕ) (leftToRight : Bool)
    (powers : List (List ℕ)) :
    (scanLines strides y leftToRight powers).filterMap ProgramLine.power?
      = (serpentine leftToRight powers).map Nat.cast := by
  induction powers generalizing y leftToRight with
  | nil => rfl
  | cons row rest ih =>
    have hadvance : (if rest.isEmpty then [] else [ProgramLine.advance strides.down]).filterMap
        ProgramLine.power? = [] := by
      split <;> rfl
    rw [scanLines, List.filterMap_cons_none rfl, List.filterMap_append, List.filterMap_append,
      filterMap_power?_rowLines, hadvance, List.nil_append, ih, serpentine, List.map_append]

theorem Plan.filterMap_power?_lines {α : Type} [Checked α] {s : Setting α} {grid : Grid}
    {startX startY : α} (p : Plan s grid startX startY) :
    p.lines.filterMap ProgramLine.power? = (serpentine true p.powers).map Nat.cast := by
  have hbefore : (headerLines grid p.width p.height p.maxPower p.feedRate).filterMap
      ProgramLine.power? = [] := rfl
  have hpreamble : (preambleLines p.rate p.left p.top).filterMap ProgramLine.power? = [] := rfl
  have hfooter : footerLines.filterMap ProgramLine.power? = [] := rfl
  rw [lines, List.filterMap_append, List.filterMap_append, List.filterMap_append, hbefore,
    hpreamble, hfooter, filterMap_power?_scanLines, List.nil_append, List.nil_append,
    List.append_nil]

/-! ## Comparing programs -/

section scan

variable {ceiling ceiling' : ℕ}

theorem outshines_burn (delta : FixedPoint 3) {power power' : ℕ}
    (h : PowerOutshines ceiling ceiling' power power') :
    Outshines ceiling ceiling' (ProgramLine.burn delta power).text
      (ProgramLine.burn delta power').text :=
  .burn delta h.1 h.2.1 h.2.2

theorem forall₂_outshines_self {lines : List ProgramLine}
    (h : ∀ line ∈ lines, ∀ delta power, line ≠ .burn delta power) :
    List.Forall₂ (Outshines ceiling ceiling') (lines.map ProgramLine.text)
      (lines.map ProgramLine.text) := by
  rw [List.forall₂_same]
  rw [List.forall_mem_map]
  exact fun line hline ↦ .same (h line hline)

theorem forall₂_rowLines (strides : Strides) (leftToRight : Bool) {powers powers' : List ℕ}
    (h : List.Forall₂ (PowerOutshines ceiling ceiling') powers powers') :
    List.Forall₂ (Outshines ceiling ceiling')
      ((rowLines strides leftToRight powers).map ProgramLine.text)
      ((rowLines strides leftToRight powers').map ProgramLine.text) := by
  have hordered : List.Forall₂ (PowerOutshines ceiling ceiling')
      (if leftToRight then powers else powers.reverse)
      (if leftToRight then powers' else powers'.reverse) := by
    cases leftToRight
    · exact List.rel_reverse h
    · exact h
  rw [rowLines, rowLines, List.map_map, List.map_map, List.forall₂_map_left_iff,
    List.forall₂_map_right_iff]
  exact hordered.imp fun _ _ ↦ outshines_burn _

theorem forall₂_scanLines (strides : Strides) {powers powers' : List (List ℕ)}
    (h : List.Forall₂ (List.Forall₂ (PowerOutshines ceiling ceiling')) powers powers') (y : ℕ)
    (leftToRight : Bool) :
    List.Forall₂ (Outshines ceiling ceiling')
      ((scanLines strides y leftToRight powers).map ProgramLine.text)
      ((scanLines strides y leftToRight powers').map ProgramLine.text) := by
  induction h generalizing y leftToRight with
  | nil => exact .nil
  | @cons row row' rest rest' hrow hrest ih =>
    have hempty : rest.isEmpty = rest'.isEmpty := by
      cases hrest <;> rfl
    have hadvance : List.Forall₂ (Outshines ceiling ceiling')
        ((if rest.isEmpty then [] else [ProgramLine.advance strides.down]).map ProgramLine.text)
        ((if rest'.isEmpty then [] else [ProgramLine.advance strides.down]).map
          ProgramLine.text) := by
      rw [hempty]
      refine forall₂_outshines_self fun line hline ↦ ?_
      split at hline
      · cases hline
      · rw [List.mem_singleton.mp hline]
        rintro _ _ ⟨⟩
    rw [scanLines, scanLines, List.map_cons, List.map_cons, List.map_append, List.map_append,
      List.map_append, List.map_append]
    refine .cons (.same (by rintro _ _ ⟨⟩)) ?_
    exact List.rel_append (forall₂_rowLines strides leftToRight hrow)
      (List.rel_append hadvance (ih (y + 1) (!leftToRight)))

end scan

theorem Grid.BurnsDeeper.forall₂_powers {maxPower weaker : Quantity} {n n' : ℤ} {invert : Bool}
    {grid grid' : Grid} (h : grid.BurnsDeeper invert grid') (hn : maxPower.truncate? = .ok n)
    (hn' : weaker.truncate? = .ok n') (hle : n' ≤ n) {powers powers' : List (List ℕ)}
    (hpowers : grid.rows.mapM (powers? maxPower invert) = .ok powers)
    (hpowers' : grid'.rows.mapM (powers? weaker invert) = .ok powers') :
    List.Forall₂ (List.Forall₂ (PowerOutshines (10 * percentOf n) (10 * percentOf n')))
      powers powers' := by
  refine forall₂_of_mapM h.2 hpowers hpowers' fun row row' rowPowers rowPowers' hrow hr hr' ↦ ?_
  refine forall₂_of_mapM hrow hr hr' fun gray gray' power power' hgray hpower hpower' ↦ ?_
  obtain ⟨m, hm, hceiling⟩ := power?_le_ceiling hpower
  obtain ⟨m', hm', hceiling'⟩ := power?_le_ceiling hpower'
  cases hn.symm.trans hm
  cases hn'.symm.trans hm'
  have hdark : darkness invert gray' ≤ darkness invert gray := by
    cases invert
    · exact Nat.sub_le_sub_left hgray 255
    · exact hgray
  exact ⟨hceiling, hceiling', power?_mono hn' hn hle hdark hpower' hpower⟩

theorem Plan.forall₂_outshines {s : Setting Quantity} {weaker : Quantity} {grid grid' : Grid}
    {startX startY : Quantity} (p : Plan s grid startX startY)
    (p' : Plan { s with maxPower := weaker } grid' startX startY)
    (hgrid : grid.BurnsDeeper s.invert grid') {ceiling ceiling' : ℕ}
    (h : List.Forall₂ (List.Forall₂ (PowerOutshines ceiling ceiling')) p.powers p'.powers) :
    List.Forall₂ (Outshines ceiling ceiling') (p.lines.map ProgramLine.text)
      (p'.lines.map ProgramLine.text) := by
  obtain ⟨hwidth, hrows⟩ := hgrid
  have hheight : grid.height = grid'.height := hrows.length_eq
  have hremark (maxPower : String) :
      (ProgramLine.comment ("Max power: " ++ maxPower ++ "%, feed rate: " ++ p.feedRate ++
        "mm/min")).text
      = "; Max power: " ++ maxPower ++ "%, feed rate: " ++ p.feedRate ++ "mm/min" := by
    have hfront : "; Max power: " = "; " ++ "Max power: " := rfl
    rw [ProgramLine.text, hfront]
    simp only [String.append_assoc]
  -- All other numbers of the two programs come from what they share.
  have hwidth_eq : p.width = p'.width := by
    refine Except.ok.inj (p.width_eq.symm.trans ?_)
    rw [hwidth]
    exact p'.width_eq
  have hheight_eq : p.height = p'.height := by
    refine Except.ok.inj (p.height_eq.symm.trans ?_)
    rw [hheight]
    exact p'.height_eq
  have hfeedRate : p.feedRate = p'.feedRate :=
    Except.ok.inj (p.feedRate_eq.symm.trans p'.feedRate_eq)
  have hrate : p.rate = p'.rate := Except.ok.inj (p.rate_eq.symm.trans p'.rate_eq)
  have hleft : p.left = p'.left := Except.ok.inj (p.left_eq.symm.trans p'.left_eq)
  have htop : p.top = p'.top := by
    refine Except.ok.inj (p.top_eq.symm.trans ?_)
    rw [topOf?, hheight]
    exact p'.top_eq
  have hheader : List.Forall₂ (Outshines ceiling ceiling')
      ((headerLines grid p.width p.height p.maxPower p.feedRate).map ProgramLine.text)
      ((headerLines grid' p'.width p'.height p'.maxPower p'.feedRate).map ProgramLine.text) := by
    rw [← hwidth_eq, ← hheight_eq, ← hfeedRate, headerLines, headerLines, hwidth, hheight]
    refine .cons (.same (by rintro _ _ ⟨⟩)) (.cons (.same (by rintro _ _ ⟨⟩))
      (.cons (.same (by rintro _ _ ⟨⟩)) (.cons ?_ .nil)))
    rw [hremark, hremark]
    exact .maxPower _ _ _
  have hpreamble : List.Forall₂ (Outshines ceiling ceiling')
      ((preambleLines p.rate p.left p.top).map ProgramLine.text)
      ((preambleLines p'.rate p'.left p'.top).map ProgramLine.text) := by
    rw [← hrate, ← hleft, ← htop]
    exact forall₂_outshines_self (by simp [preambleLines])
  have hfooter : List.Forall₂ (Outshines ceiling ceiling') (footerLines.map ProgramLine.text)
      (footerLines.map ProgramLine.text) :=
    forall₂_outshines_self (by simp [footerLines])
  rw [lines, lines, List.map_append, List.map_append, List.map_append, List.map_append,
    List.map_append, List.map_append]
  exact List.rel_append hheader (List.rel_append hpreamble
    (List.rel_append (forall₂_scanLines s.strides h 0 true) hfooter))

/-- **Only the powers depend on the power, and they follow it.** Two settings that allow `a` and no
more than `a` percent, and otherwise agree, are given a grid each, of one size, the first of which
is nowhere to be burnt less. When both are compiled from the same start point, the two programs have
the same lines but for the greatest power in the remark and for the powers of moves. Pixel by pixel,
no power of the first program is less than that of the second, and each program keeps to its own
ceiling of ten units for a percent. -/
theorem outshines_compile {s : Setting Quantity} {weaker : Quantity} {a b : ℚ}
    (ha : s.maxPower.value? = some a) (hb : weaker.value? = some b) (hab : b ≤ a)
    {grid grid' : Grid} (hgrid : grid.BurnsDeeper s.invert grid') {startX startY : Quantity}
    {w w' : Workpiece Quantity} (hw : compile? s grid startX startY = .ok w)
    (hw' : compile? { s with maxPower := weaker } grid' startX startY = .ok w') :
    ∃ n n', s.maxPower.truncate? = .ok n ∧ weaker.truncate? = .ok n' ∧
      w.texts.length = w'.texts.length ∧
      List.Forall₂ (Outshines (10 * percentOf n) (10 * percentOf n')) w.texts w'.texts ∧
      ∃ powers powers' : List (List ℕ),
        grid.rows.mapM (powers? s.maxPower s.invert) = .ok powers ∧
        grid'.rows.mapM (powers? weaker s.invert) = .ok powers' ∧
        w.lines.toList.filterMap ProgramLine.power? = (serpentine true powers).map Nat.cast ∧
        w'.lines.toList.filterMap ProgramLine.power? = (serpentine true powers').map Nat.cast ∧
        List.Forall₂ (List.Forall₂ (PowerOutshines (10 * percentOf n) (10 * percentOf n')))
          powers powers' := by
  obtain ⟨p, hlines⟩ := exists_plan hw
  obtain ⟨p', hlines'⟩ := exists_plan hw'
  have hn := Quantity.truncate?_eq_ok ha
  have hn' := Quantity.truncate?_eq_ok hb
  have hpowers := hgrid.forall₂_powers hn hn' (integerPart_mono hab) p.powers_eq p'.powers_eq
  have houtshines : List.Forall₂ (Outshines (10 * percentOf (integerPart a))
      (10 * percentOf (integerPart b))) w.texts w'.texts := by
    rw [Workpiece.texts, Workpiece.texts, hlines, hlines']
    exact p.forall₂_outshines p' hgrid hpowers
  exact ⟨_, _, hn, hn', houtshines.length_eq, houtshines, p.powers, p'.powers, p.powers_eq,
    p'.powers_eq, hlines ▸ p.filterMap_power?_lines, hlines' ▸ p'.filterMap_power?_lines, hpowers⟩

/-- The small grid with some pixels brightened. -/
def Grid.smallFaded : Grid where
  width := 3
  rows := [[40, 128, 255], [255, 90, 1]]
  uniform := by decide

/-- The small grid at eighty percent, beside the brighter one at fifty and a half. -/
theorem outshines_compile_small :
    ∃ w w', compile? Setting.small Grid.small (.real 10) (.whole 20) = .ok w ∧
      compile? { Setting.small with maxPower := .real 50.5 } Grid.smallFaded (.real 10) (.whole 20)
        = .ok w' ∧
      List.Forall₂ (Outshines 800 500) w.texts w'.texts ∧
      w.lines.toList.filterMap ProgramLine.power? = [800, 398, 0, 800, 778, 0] ∧
      w'.lines.toList.filterMap ProgramLine.power? = [422, 249, 0, 498, 324, 0] := by
  obtain ⟨w, hw, -⟩ := exists_compile?_small
  have hok : (compile? { Setting.small with maxPower := .real 50.5 } Grid.smallFaded (.real 10)
      (.whole 20)).isOk = true := by decide +kernel
  cases hw' : compile? { Setting.small with maxPower := .real 50.5 } Grid.smallFaded (.real 10)
      (.whole 20) with
  | error _ =>
    rw [hw'] at hok
    cases hok
  | ok w' =>
    have hdeeper : Grid.small.BurnsDeeper Setting.small.invert Grid.smallFaded := ⟨rfl, by decide⟩
    obtain ⟨n, n', hn, hn', -, houtshines, powers, powers', hpowers, hpowers', hread, hread', -⟩ :=
      outshines_compile (a := 80) (b := 101 / 2) rfl (by decide +kernel) (by norm_num) hdeeper
        hw hw'
    cases hn
    obtain rfl : n' = 50 := Except.ok.inj (hn'.symm.trans (by decide +kernel))
    obtain rfl : powers = [[800, 398, 0], [0, 778, 800]] :=
      Except.ok.inj (hpowers.symm.trans (by decide +kernel))
    obtain rfl : powers' = [[422, 249, 0], [0, 324, 498]] :=
      Except.ok.inj (hpowers'.symm.trans (by decide +kernel))
    exact ⟨w, w', hw, rfl, houtshines, hread, hread'⟩

end Engraving
