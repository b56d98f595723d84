import Engraving.Program.Job
import Engraving.Proofs.Toolpath.Obedience

/-!
# A compiled program is read back as it was meant

A finished program with finite coordinates is read strictly without a complaint. The path that is
read begins with the one rapid move to the start of the engraving, and then there is one segment for
every move of the program, each of which adds the float that is read from its line. The position of
the reader and the moves of the program stay together because what a reader does on a line is known
line by line, and its mode is relative during the whole scan.
-/

namespace Engraving

/-! ## Segments of moves -/

/-- The segments along the moves on some lines, from a place on. -/
def follow (p : Point Float) : List ProgramLine → List (Segment Float)
  | [] => []
  | .burn delta _ :: rest =>
    let q : Point Float := ⟨p.x + delta.reading, p.y⟩
    ⟨p, q, false⟩ :: follow q rest
  | .advance delta :: rest =>
    let q : Point Float := ⟨p.x, p.y + delta.reading⟩
    ⟨p, q, false⟩ :: follow q rest
  | _ :: rest => follow p rest

/-- A line that moves the head at the feed rate. -/
def ProgramLine.isMove : ProgramLine → Bool
  | burn _ _ => true
  | advance _ => true
  | _ => false

theorem length_follow (p : Point Float) (lines : List ProgramLine) :
    (follow p lines).length = lines.countP ProgramLine.isMove := by
  induction lines generalizing p with
  | nil => rfl
  | cons line rest ih =>
    cases line <;> simp [follow, ProgramLine.isMove, ih, List.countP_cons]

theorem follow_append_footerLines (p : Point Float) (lines : List ProgramLine) :
    follow p (lines ++ footerLines) = follow p lines := by
  induction lines generalizing p with
  | nil => rfl
  | cons line rest ih =>
    cases line <;> simp only [List.cons_append, follow, ih]

theorem rapid_of_mem_follow {p : Point Float} {lines : List ProgramLine} {segment : Segment Float}
    (h : segment ∈ follow p lines) : segment.rapid = false := by
  induction lines generalizing p with
  | nil => cases h
  | cons line rest ih =>
    cases line with
    | burn delta power =>
      rcases List.mem_cons.mp h with rfl | h
      · rfl
      · exact ih h
    | advance delta =>
      rcases List.mem_cons.mp h with rfl | h
      · rfl
      · exact ih h
    | _ => exact ih h

/-! ## What lines do to a toolpath -/

namespace Toolpath

@[simp] theorem lineCount_inOrder (t : Toolpath) : t.inOrder.lineCount = t.lineCount := rfl

@[simp] theorem arcCount_inOrder (t : Toolpath) : t.inOrder.arcCount = t.arcCount := rfl

@[simp] theorem segments_inOrder (t : Toolpath) : t.inOrder.segments = t.segments.reverse := rfl

theorem lineCount_foldl_obey (t : Toolpath) (lines : List ProgramLine) :
    (lines.foldl obey t).lineCount = t.lineCount + lines.length := by
  induction lines generalizing t with
  | nil => rfl
  | cons line rest ih =>
    have hone : (t.obey line).lineCount = t.lineCount + 1 := by cases line <;> rfl
    rw [List.foldl_cons, ih, hone, List.length_cons]
    omega

theorem arcCount_foldl_obey (t : Toolpath) (lines : List ProgramLine) :
    (lines.foldl obey t).arcCount = t.arcCount := by
  induction lines generalizing t with
  | nil => rfl
  | cons line rest ih =>
    have hone : (t.obey line).arcCount = t.arcCount := by cases line <;> rfl
    rw [List.foldl_cons, ih, hone]

section relative

variable (t : Toolpath) (hmode : t.state.positioning = .relative)

include hmode

theorem shift_of_relative (old : Float) (d : FixedPoint 3) :
    t.state.shift old d = old + d.reading := by
  rw [HeadState.shift, hmode, if_neg (by decide)]

/-- In relative mode a burning line adds a segment along the row. -/
theorem obey_burn (delta : FixedPoint 3) (power : ℤ) :
    let q : Point Float := ⟨t.state.position.x + delta.reading, t.state.position.y⟩
    (t.obey (.burn delta power)).state.position.point = q ∧
      (t.obey (.burn delta power)).segments
        = ⟨t.state.position.point, q, false⟩ :: t.segments := by
  have hpoint : (t.obey (.burn delta power)).state.position.point
      = ⟨t.state.position.x + delta.reading, t.state.position.y⟩ :=
    congrArg (fun x ↦ (⟨x, t.state.position.y⟩ : Point Float)) (t.shift_of_relative hmode _ delta)
  refine ⟨hpoint, ?_⟩
  rw [← hpoint]
  rfl

/-- In relative mode an advancing line adds a segment to the next row. -/
theorem obey_advance (delta : FixedPoint 3) :
    let q : Point Float := ⟨t.state.position.x, t.state.position.y + delta.reading⟩
    (t.obey (.advance delta)).state.position.point = q ∧
      (t.obey (.advance delta)).segments
        = ⟨t.state.position.point, q, false⟩ :: t.segments := by
  have hpoint : (t.obey (.advance delta)).state.position.point
      = ⟨t.state.position.x, t.state.position.y + delta.reading⟩ :=
    congrArg (fun y ↦ (⟨t.state.position.x, y⟩ : Point Float)) (t.shift_of_relative hmode _ delta)
  refine ⟨hpoint, ?_⟩
  rw [← hpoint]
  rfl

end relative

/-- In relative mode the lines of a scan add the segments along their moves. -/
theorem segments_foldl_obey {strides : Strides} (lines : List ProgramLine)
    (hlines : ∀ line ∈ lines, IsScanLine strides line) (t : Toolpath)
    (hmode : t.state.positioning = .relative) :
    (lines.foldl obey t).segments
      = (follow t.state.position.point lines).reverse ++ t.segments := by
  induction lines generalizing t with
  | nil => rfl
  | cons line rest ih =>
    have hrest := fun l hl ↦ hlines l (List.mem_cons_of_mem _ hl)
    have hburn (delta : FixedPoint 3) (power : ℤ) :
        (rest.foldl obey (t.obey (.burn delta power))).segments
          = (follow t.state.position.point (.burn delta power :: rest)).reverse ++ t.segments := by
      obtain ⟨hpoint, hsegments⟩ := t.obey_burn hmode delta power
      rw [ih hrest (t.obey (.burn delta power)) hmode, hpoint, hsegments, follow,
        List.reverse_cons, List.append_assoc]
      rfl
    rw [List.foldl_cons]
    -- No line of a scan changes the mode, so the induction may rest on `hmode` throughout.
    cases hlines line List.mem_cons_self with
    | comment y => exact ih hrest _ hmode
    | right power => exact hburn strides.right power
    | left power => exact hburn strides.left power
    | down =>
      obtain ⟨hpoint, hsegments⟩ := t.obey_advance hmode strides.down
      rw [ih hrest (t.obey (.advance strides.down)) hmode, hpoint, hsegments, follow,
        List.reverse_cons, List.append_assoc]
      rfl

end Toolpath

/-! ## The lines of a plan -/

/-- A scan has a remark for every row, a move for every pixel and a move between two rows. -/
theorem length_scanLines (strides : Strides) {columns : ℕ} {powers : List (List ℕ)}
    (h : ∀ row ∈ powers, row.length = columns) (y : ℕ) (leftToRight : Bool) :
    (scanLines strides y leftToRight powers).length
        = powers.length * (columns + 1) + (powers.length - 1) ∧
      (scanLines strides y leftToRight powers).countP ProgramLine.isMove
        = powers.length * columns + (powers.length - 1) := by
  induction powers generalizing y leftToRight with
  | nil => exact ⟨by simp [scanLines], by simp [scanLines]⟩
  | cons row rest ih =>
    obtain rfl := h row List.mem_cons_self
    obtain ⟨hlength, hmoves⟩ := ih (fun r hr ↦ h r (List.mem_cons_of_mem _ hr)) (y + 1)
      (!leftToRight)
    have hrow : (rowLines strides leftToRight row).length = row.length := by
      cases leftToRight <;> simp [rowLines]
    have hrowMoves : (rowLines strides leftToRight row).countP ProgramLine.isMove = row.length := by
      rw [← hrow, List.countP_eq_length]
      intro line hline
      obtain ⟨power, -, rfl⟩ := List.mem_map.mp hline
      rfl
    rw [scanLines, List.length_cons, List.countP_cons, List.length_append, List.length_append,
      List.countP_append, List.countP_append, hrow, hrowMoves, hlength, hmoves]
    -- Only the last row has no line behind it that leads down.
    cases rest with
    | nil => exact ⟨by simp, by simp [ProgramLine.isMove]⟩
    | cons next later =>
      simp only [List.isEmpty_cons, Bool.false_eq_true, if_false, List.length_cons, List.length_nil,
        List.countP_cons, List.countP_nil, ProgramLine.isMove, if_true, Nat.add_mul]
      constructor <;> omega

namespace Plan

variable {s : Setting Quantity} {grid : Grid} {startX startY : Quantity}
  (p : Plan s grid startX startY)

/-- Finite coordinates of a program are read as finite floats. -/
theorem isReadable (hfinite : ∀ line ∈ p.lines, line.IsFinite) :
    ∀ line ∈ p.lines, line.IsReadable := by
  have hprinted (a : Quantity) (h : (printed a).isFinite = true) : (printed a).IsReadable :=
    FixedPoint.isReadable_of_fixed? (fixed?_eq_printed h) h
  intro line hline d hd
  have hd' := hfinite line hline d hd
  have hcases := p.coordinate_cases hline hd
  simp only [List.mem_cons, List.not_mem_nil, or_false] at hcases
  rcases hcases with rfl | rfl | rfl | rfl | rfl
  · exact FixedPoint.isReadable_of_fixed? p.left_eq hd'
  · match htop : topOf? s grid startY with
    | .error _ =>
      have htop' := p.top_eq
      rw [htop] at htop'
      cases htop'
    | .ok top =>
      have htop' := p.top_eq
      rw [htop] at htop'
      exact FixedPoint.isReadable_of_fixed? htop' hd'
  · exact hprinted _ hd'
  · exact hprinted _ hd'
  · exact hprinted _ hd'

/-- The first segment of a program leads to its start, the others along its moves. -/
theorem segments_foldl_obey :
    (p.lines.foldl Toolpath.obey {}).segments.reverse
      = ⟨⟨0, 0⟩, ⟨p.left.reading, p.top.reading⟩, true⟩ ::
        follow ⟨p.left.reading, p.top.reading⟩ p.lines := by
  have hfollow : follow ⟨p.left.reading, p.top.reading⟩ p.lines
      = follow ⟨p.left.reading, p.top.reading⟩ (scanLines s.strides 0 true p.powers) :=
    follow_append_footerLines _ _
  rw [hfollow, lines, List.foldl_append, List.foldl_append, List.foldl_append]
  have hscan := Toolpath.segments_foldl_obey (scanLines s.strides 0 true p.powers)
    (fun _ ↦ isScanLine_of_mem_scanLines)
    ((preambleLines p.rate p.left p.top).foldl Toolpath.obey
      ((headerLines grid p.width p.height p.maxPower p.feedRate).foldl Toolpath.obey {})) rfl
  have hfooter (t : Toolpath) : (footerLines.foldl Toolpath.obey t).segments = t.segments := rfl
  rw [hfooter, hscan, List.reverse_append, List.reverse_reverse]
  rfl

theorem length_lines : (p.lines.length : ℤ)
      = 12 + grid.height * (grid.width + 1) + max ((grid.height : ℤ) - 1) 0 ∧
    (p.lines.countP ProgramLine.isMove : ℤ)
      = grid.width * grid.height + max ((grid.height : ℤ) - 1) 0 := by
  have hcolumns : ∀ row ∈ p.powers, row.length = grid.width.toNat := by
    intro row hrow
    have hlength := p.length_of_mem_powers hrow
    omega
  obtain ⟨hlength, hmoves⟩ := length_scanLines s.strides hcolumns 0 true
  have hall : p.lines.length = 12 + (scanLines s.strides 0 true p.powers).length := by
    rw [lines, List.length_append, List.length_append, List.length_append]
    change 4 + (6 + (_ + 2)) = _
    omega
  have hallMoves : p.lines.countP ProgramLine.isMove
      = (scanLines s.strides 0 true p.powers).countP ProgramLine.isMove := by
    rw [lines, List.countP_append, List.countP_append, List.countP_append]
    change 0 + (0 + (_ + 0)) = _
    omega
  rw [hall, hallMoves, hlength, hmoves, p.length_powers]
  rcases Nat.eq_zero_or_pos grid.height with hzero | hpos
  · rw [hzero]
    simp
  · have hwidth : (grid.width.toNat : ℤ) = grid.width := by
      obtain ⟨row, hrow⟩ := List.exists_mem_of_length_pos (p.length_powers ▸ hpos)
      have hlength := p.length_of_mem_powers hrow
      omega
    rw [max_eq_left (by omega)]
    push_cast [Nat.cast_sub hpos]
    rw [hwidth]
    exact ⟨by ring, by ring⟩

end Plan

/-- **A finished program is read back segment by segment.** -/
theorem ofText?_compile {s : Setting Quantity} {grid : Grid} {startX startY : Quantity}
    {w : Workpiece Quantity} (h : compile? s grid startX startY = .ok w)
    (hfinite : w.HasFiniteCoordinates) :
    programOf? s grid startX startY .identity = .ok (programText w.texts) ∧
    ∃ (t : Toolpath) (left top : FixedPoint 3),
      Toolpath.ofText? true (programText w.texts).toList = .ok t ∧
      t.lineCount = w.lines.size ∧
      (t.lineCount : ℤ) = 12 + grid.height * (grid.width + 1) + max ((grid.height : ℤ) - 1) 0 ∧
      (t.segments.length : ℤ)
        = 1 + grid.width * grid.height + max ((grid.height : ℤ) - 1) 0 ∧
      t.arcCount = 0 ∧
      ProgramLine.place left top ∈ w.lines.toList ∧
      t.segments = ⟨⟨0, 0⟩, ⟨left.reading, top.reading⟩, true⟩ ::
        follow ⟨left.reading, top.reading⟩ w.lines.toList ∧
      (∀ segment ∈ follow ⟨left.reading, top.reading⟩ w.lines.toList, segment.rapid = false) ∧
      ∀ line ∈ w.lines.toList, ∀ d ∈ line.coordinates,
        readFloat? d.text.toList = some d.reading ∧
          (Exact.ofFloat d.reading).isFinite = true := by
  obtain ⟨p, hlines⟩ := exists_plan h
  have hp : ∀ line ∈ p.lines, line.IsFinite := hlines ▸ hfinite
  have hreadable := p.isReadable hp
  have hread : Toolpath.ofText? true (programText w.texts).toList
      = .ok (p.lines.foldl Toolpath.obey {}).inOrder := by
    have htexts : w.texts.map String.toList = p.lines.map fun line ↦ line.text.toList := by
      rw [Workpiece.texts, hlines, List.map_map]
      rfl
    rw [Toolpath.ofText?, lines_programText_texts h, htexts, foldlM_line_eq_obey hreadable]
    rfl
  have hcount : (p.lines.foldl Toolpath.obey {}).inOrder.lineCount = p.lines.length := by
    rw [Toolpath.lineCount_inOrder, Toolpath.lineCount_foldl_obey, Nat.zero_add]
  have harcs : (p.lines.foldl Toolpath.obey {}).inOrder.arcCount = 0 := by
    rw [Toolpath.arcCount_inOrder, Toolpath.arcCount_foldl_obey]
  have hsegments := p.segments_foldl_obey
  rw [← Toolpath.segments_inOrder] at hsegments
  -- From here on it does not matter how the toolpath came about.
  generalize (p.lines.foldl Toolpath.obey {}).inOrder = t at hread hcount harcs hsegments
  rw [← Array.length_toList, hlines]
  refine ⟨?_, t, p.left, p.top, hread, hcount, ?_, ?_, harcs, p.place_mem_lines, hsegments,
    fun _ ↦ rapid_of_mem_follow, ?_⟩
  · rw [programOf?, h]
    rfl
  · rw [hcount]
    exact p.length_lines.1
  · rw [hsegments, List.length_cons, length_follow]
    push_cast
    rw [p.length_lines.2]
    ring
  · intro line hline d hd
    have hd' := hreadable line hline d hd
    exact ⟨hd'.readFloat?_eq, hd'.isFinite_reading⟩

theorem ofText?_compile_small :
    ∃ w, compile? Setting.small Grid.small (.real 10) (.whole 20) = .ok w ∧
      w.HasFiniteCoordinates ∧
      ∃ t, Toolpath.ofText? true (programText w.texts).toList = .ok t ∧ t.lineCount = 21 ∧
        t.segments.length = 8 := by
  obtain ⟨w, hw, hfinite⟩ := exists_compile?_small
  obtain ⟨-, t, _, _, hread, -, hcount, hlength, -⟩ := ofText?_compile hw hfinite
  refine ⟨w, hw, hfinite, t, hread, ?_, ?_⟩
  · have hsum : (12 + Grid.small.height * (Grid.small.width + 1)
        + max ((Grid.small.height : ℤ) - 1) 0) = 21 := by decide
    omega
  · have hsum : (1 + Grid.small.width * Grid.small.height
        + max ((Grid.small.height : ℤ) - 1) 0) = 8 := by decide
    omega

end Engraving
