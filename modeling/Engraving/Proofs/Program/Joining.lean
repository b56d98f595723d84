import Engraving.Proofs.Number.RepeatedSum
import Engraving.Proofs.Program.Safety

/-!
# Joined moves

What coalescing makes of a program is again a list of typed lines, and its moves can be cut up so
that the moves of the program come back, `CutInto`. A row is taken up move by move. In between there
is a run that may be extended yet: so many equal moves, whose lengths are summed as floats. The
induction over a row carries this run along, and when it is settled its length is printed exactly.
-/

namespace Engraving

def ProgramLine.isBurn : ProgramLine → Bool
  | burn _ _ => true
  | _ => false

/-- The moves of `joined` can be cut into the moves of `plain`, which run in the same direction with
the same power and whose lengths add up exactly. All other lines are the same and in place. -/
inductive CutInto : List ProgramLine → List ProgramLine → Prop
  | nil : CutInto [] []
  | line {line : ProgramLine} {joined plain : List ProgramLine} (hline : line.isBurn = false)
    (h : CutInto joined plain) : CutInto (line :: joined) (line :: plain)
  | move (negative : Bool) (lengths : List ℕ) (power : ℕ) {joined plain : List ProgramLine}
    (hne : lengths ≠ []) (h : CutInto joined plain) :
    CutInto (.burn (.finite negative lengths.sum) power :: joined)
      (lengths.map (fun units ↦ .burn (.finite negative units) power) ++ plain)

namespace CutInto

variable {joined plain joined' plain' : List ProgramLine}

theorem append (h : CutInto joined plain) (h' : CutInto joined' plain') :
    CutInto (joined ++ joined') (plain ++ plain') := by
  induction h with
  | nil => exact h'
  | line hline _ ih => exact ih.line hline
  | move negative lengths power hne _ ih =>
    rw [List.append_assoc]
    exact ih.move negative lengths power hne

theorem refl_of_not_isBurn {lines : List ProgramLine} (h : ∀ line ∈ lines, line.isBurn = false) :
    CutInto lines lines := by
  induction lines with
  | nil => exact .nil
  | cons line rest ih =>
    obtain ⟨hline, hrest⟩ := List.forall_mem_cons.mp h
    exact (ih hrest).line hline

theorem replicate (h : CutInto joined plain) (negative : Bool) (units power n : ℕ) :
    CutInto (.burn (.finite negative ((n + 1) * units)) power :: joined)
      (List.replicate (n + 1) (.burn (.finite negative units) power) ++ plain) := by
  have hmove := h.move negative (List.replicate (n + 1) units) power (by simp)
  rwa [List.map_replicate, List.sum_replicate, smul_eq_mul] at hmove

end CutInto

/-! ## Moves on the lines of a program -/

theorem isDigits_toDigits (n : ℕ) : IsDigits (Nat.toDigits 10 n) :=
  ⟨Nat.toDigits_ne_nil, fun _ hc ↦ isDigit_of_ascii (isDigit_of_mem_toDigits hc)⟩

/-- A burning line of a program is read as the move that it was written for. -/
theorem PowerMove.read?_burn (negative : Bool) (units power : ℕ) :
    read? (ProgramLine.burn (.finite negative units) power).text.toList
      = some ⟨negative, decimalReading negative units, Nat.toDigits 10 power⟩ := by
  have hpower : toString (power : ℤ) = String.ofList (Nat.toDigits 10 power) := by
    rw [← toList_toString_natCast, String.ofList_toList]
  rw [ProgramLine.text, hpower]
  exact read?_finite negative units (isDigits_toDigits power)

/-! ## Coalescing a row -/

section row

variable {negative : Bool} {units limit : ℕ}

/-- A run of `n + 1` equal moves that may be extended yet. -/
def equalMoves (negative : Bool) (units power n : ℕ) : PowerMove :=
  ⟨negative, repeatedSum (decimalReading negative units) n, Nat.toDigits 10 power⟩

theorem text_equalMoves (power : ℕ) {n : ℕ} (hn : n + 1 ≤ 100000)
    (hsum : (n + 1) * units ≤ 1000000000) :
    (equalMoves negative units power n).text
      = (ProgramLine.burn (.finite negative ((n + 1) * units)) power).text := by
  have hpower : String.ofList (Nat.toDigits 10 power) = toString (power : ℤ) := by
    rw [← toList_toString_natCast, String.ofList_toList]
  rw [PowerMove.text, equalMoves, ofFloat_repeatedSum negative hn hsum, hpower, ProgramLine.text]

theorem joins_equalMoves {power n next : ℕ} :
    (equalMoves negative units power n).joins (equalMoves negative units next 0) = true ↔
      power = next := by
  rw [PowerMove.joins, equalMoves, equalMoves, BEq.rfl, Bool.true_and, beq_iff_eq, toDigits_inj]

namespace Coalescing

variable (done : List String)

theorem line_burn (run? : Option PowerMove) (power : ℕ) :
    (⟨done, run?⟩ : Coalescing).line (ProgramLine.burn (.finite negative units) power).text
      = (⟨done, run?⟩ : Coalescing).move (equalMoves negative units power 0) := by
  rw [line, PowerMove.read?_burn]
  rfl

theorem move_equalMoves (power n next : ℕ) :
    (⟨done, some (equalMoves negative units power n)⟩ : Coalescing).move
        (equalMoves negative units next 0)
      = if power = next then ⟨done, some (equalMoves negative units power (n + 1))⟩
        else ⟨(equalMoves negative units power n).text :: done,
          some (equalMoves negative units next 0)⟩ := by
  rw [move, Option.filter_some]
  by_cases h : power = next
  · rw [if_pos (joins_equalMoves.mpr h), if_pos h]
    rfl
  · rw [if_neg (mt joins_equalMoves.mp h), if_neg h]
    rfl

variable (negative) in
/-- The moves of a row behind a run of equal moves. A run grows by one move at a time, and gives way
to a new one where the power changes. -/
theorem exists_cutInto_foldl_line (hlimit : limit ≤ 100000) (hsum : limit * units ≤ 1000000000)
    (powers : List ℕ) (power n : ℕ) (hn : n + 1 + powers.length ≤ limit) :
    ∃ joined, CutInto joined
        (List.replicate (n + 1) (.burn (.finite negative units) power) ++
          powers.map fun (next : ℕ) ↦ .burn (.finite negative units) next) ∧
      (((powers.map fun (next : ℕ) ↦ ProgramLine.burn (.finite negative units) next).map
        ProgramLine.text).foldl line
          ⟨done, some (equalMoves negative units power n)⟩).flush.done
        = (joined.map ProgramLine.text).reverse ++ done := by
  have htext (power : ℕ) {n : ℕ} (hn : n + 1 ≤ limit) :
      (equalMoves negative units power n).text
        = (ProgramLine.burn (.finite negative ((n + 1) * units)) power).text :=
    text_equalMoves power (hn.trans hlimit) ((Nat.mul_le_mul_right units hn).trans hsum)
  induction powers generalizing done power n with
  | nil =>
    refine ⟨_, CutInto.nil.replicate negative units power n, ?_⟩
    rw [List.length_nil, Nat.add_zero] at hn
    change (equalMoves negative units power n).text :: done = _
    rw [htext power hn]
    rfl
  | cons next rest ih =>
    rw [List.length_cons] at hn
    rw [List.map_cons, List.map_cons, List.foldl_cons, line_burn, move_equalMoves]
    by_cases h : power = next
    · -- The run grows by the next move.
      obtain ⟨joined, hcut, hdone⟩ := ih done power (n + 1) (by omega)
      refine ⟨joined, ?_, ?_⟩
      · rw [List.replicate_succ', List.append_assoc] at hcut
        rwa [← h]
      · rw [if_pos h]
        exact hdone
    · -- The run is written, and the next move begins another one.
      obtain ⟨joined, hcut, hdone⟩ :=
        ih ((equalMoves negative units power n).text :: done) next 0 (by omega)
      refine ⟨_, hcut.replicate negative units power n, ?_⟩
      rw [if_neg h, hdone, htext power (by omega), List.map_cons, List.reverse_cons,
        List.append_assoc, List.singleton_append]

end Coalescing

theorem exists_cutInto_coalesce_row {powers : List ℕ} (hcount : powers.length ≤ 100000)
    (hsum : powers.length * units ≤ 1000000000) :
    ∃ joined,
      CutInto joined (powers.map fun (power : ℕ) ↦ .burn (.finite negative units) power) ∧
      coalesce ((powers.map fun (power : ℕ) ↦
        ProgramLine.burn (.finite negative units) power).map ProgramLine.text)
        = joined.map ProgramLine.text := by
  cases powers with
  | nil => exact ⟨[], .nil, rfl⟩
  | cons power rest =>
    obtain ⟨joined, hcut, hdone⟩ := Coalescing.exists_cutInto_foldl_line negative []
      hcount hsum rest power 0 (by rw [List.length_cons]; omega)
    refine ⟨joined, hcut, ?_⟩
    rw [coalesce, List.map_cons, List.map_cons, List.foldl_cons, Coalescing.line_burn]
    change (List.foldl Coalescing.line
      ⟨[], some (equalMoves negative units power 0)⟩ _).flush.done.reverse = _
    rw [hdone, List.append_nil, List.reverse_reverse]

end row

/-! ## Coalescing a program -/

/-- A row of a scan, coalesced. An empty row has no moves and no length. -/
theorem exists_cutInto_coalesce_rowLines {strides : Strides} {columns : ℕ}
    (hcolumns : columns ≤ 100000) {row : List ℕ} (hrow : row.length = columns) (leftToRight : Bool)
    (hburn : ∀ delta power, ProgramLine.burn delta power ∈ rowLines strides leftToRight row →
      ∃ negative units, delta = .finite negative units ∧ columns * units ≤ 1000000000) :
    ∃ joined, CutInto joined (rowLines strides leftToRight row) ∧
      coalesce ((rowLines strides leftToRight row).map ProgramLine.text)
        = joined.map ProgramLine.text := by
  rw [rowLines] at hburn ⊢
  generalize hordered : (if leftToRight then row else row.reverse) = ordered at hburn ⊢
  generalize (if leftToRight then strides.right else strides.left) = delta at hburn ⊢
  have hcount : ordered.length = columns := by
    rw [← hrow, ← hordered]
    split
    · rfl
    · exact List.length_reverse
  cases ordered with
  | nil => exact ⟨[], .nil, rfl⟩
  | cons power later =>
    obtain ⟨negative, units, rfl, hsum⟩ := hburn delta power (by simp)
    exact exists_cutInto_coalesce_row (hcount ▸ hcolumns) (hcount ▸ hsum)

/-- A scan whose rows are not too long, coalesced. No move is carried past the remark or the descent
between two rows. -/
theorem exists_cutInto_coalesce_scan {strides : Strides} {columns : ℕ} (hcolumns : columns ≤ 100000)
    {powers : List (List ℕ)} (hlength : ∀ row ∈ powers, row.length = columns) (y : ℕ)
    (leftToRight : Bool)
    (hburn : ∀ delta power, ProgramLine.burn delta power ∈ scanLines strides y leftToRight powers →
      ∃ negative units, delta = .finite negative units ∧ columns * units ≤ 1000000000) :
    ∃ joined, CutInto joined (scanLines strides y leftToRight powers) ∧
      coalesce ((scanLines strides y leftToRight powers).map ProgramLine.text)
        = joined.map ProgramLine.text := by
  induction powers generalizing y leftToRight with
  | nil => exact ⟨[], .nil, rfl⟩
  | cons row rest ih =>
    rw [scanLines] at hburn ⊢
    obtain ⟨joined, hcut, hjoined⟩ := exists_cutInto_coalesce_rowLines hcolumns
      (hlength row List.mem_cons_self) leftToRight
      fun delta power h ↦ hburn delta power (List.mem_cons_of_mem _ (List.mem_append_left _ h))
    obtain ⟨joined', hcut', hjoined'⟩ := ih
      (fun row hrow ↦ hlength row (List.mem_cons_of_mem _ hrow)) (y + 1) (!leftToRight)
      fun delta power h ↦ hburn delta power (by simp [h])
    rw [List.map_cons, coalesce_cons (ProgramLine.read?_text (by simp))]
    cases rest with
    | nil =>
      simp only [List.isEmpty_nil, if_true, scanLines, List.append_nil]
      refine ⟨_, hcut.line rfl, ?_⟩
      rw [hjoined, List.map_cons]
    | cons next later =>
      simp only [List.isEmpty_cons, Bool.false_eq_true, if_false, List.singleton_append]
      refine ⟨_, .line rfl (hcut.append (hcut'.line rfl)), ?_⟩
      rw [List.map_append, List.map_cons, coalesce_append_cons _ _ (ProgramLine.read?_text (by simp)),
        hjoined, hjoined', List.map_cons, List.map_append, List.map_cons]

namespace Plan

variable {s : Setting Quantity} {grid : Grid} {startX startY : Quantity}
  (p : Plan s grid startX startY)

/-- The lines of the program with other lines for its scan. -/
def withScan (lines : List ProgramLine) : List ProgramLine :=
  p.setup ++ ProgramLine.place p.left p.top :: ProgramLine.laserOn :: ProgramLine.relative ::
    (lines ++ [ProgramLine.laserOff, ProgramLine.restoreAbsolute])

theorem withScan_scan : p.withScan p.scan = p.lines := p.lines_eq.symm

/-- Where all lengths are finite and none of `columns` equal moves lead too far, the same is told of
the thousandths in which they are written. -/
theorem exists_units_of_burn {columns : ℤ} (hfinite : ∀ line ∈ p.lines, line.IsFinite)
    (hlength : ∀ delta power, ProgramLine.burn delta power ∈ p.lines →
      ∀ v ∈ delta.value?, columns * |v| ≤ 1000000)
    {delta : FixedPoint 3} {power : ℤ} (h : ProgramLine.burn delta power ∈ p.scan) :
    ∃ negative units, delta = .finite negative units ∧ columns.toNat * units ≤ 1000000000 := by
  have hmem := p.mem_lines_of_mem_scan h
  have hdelta := hfinite _ hmem delta List.mem_cons_self
  cases delta with
  | finite negative units =>
    refine ⟨negative, units, rfl, ?_⟩
    have hsize := hlength _ _ hmem _ (value?_finite_three negative units)
    rw [abs_decimal] at hsize
    have hunits : (columns * units : ℚ) ≤ 1000000000 := by linarith
    have hunits' : columns * (units : ℤ) ≤ 1000000000 := by exact_mod_cast hunits
    rcases le_total 0 columns with hnonneg | hnonpos
    · rw [← Int.toNat_of_nonneg hnonneg] at hunits'
      exact_mod_cast hunits'
    · rw [Int.toNat_of_nonpos hnonpos, Nat.zero_mul]
      norm_num
  | infinite _ => cases hdelta
  | undefined => cases hdelta

/-- A program whose rows are not too long, coalesced: the scan alone changes. -/
theorem exists_cutInto_coalesce (hfinite : ∀ line ∈ p.lines, line.IsFinite)
    (hwidth : grid.width ≤ 100000)
    (hlength : ∀ delta power, ProgramLine.burn delta power ∈ p.lines →
      ∀ v ∈ delta.value?, grid.width * |v| ≤ 1000000) :
    ∃ joined, CutInto joined p.scan ∧
      coalesce (p.lines.map ProgramLine.text)
        = (p.withScan joined).map ProgramLine.text := by
  have hcolumns : ∀ row ∈ p.powers, row.length = grid.width.toNat := by
    intro row hrow
    have hlength := p.length_of_mem_powers hrow
    omega
  obtain ⟨joined, hcut, hjoined⟩ := exists_cutInto_coalesce_scan (by omega) hcolumns 0 true
    fun _ _ ↦ p.exists_units_of_burn hfinite hlength
  refine ⟨joined, hcut, ?_⟩
  have happly := p.apply_texts .coalesce
  rw [PostPass.apply, PostPass.apply, scan, hjoined] at happly
  rw [happly, withScan]
  simp only [List.map_append, List.map_cons, List.map_nil]

theorem cutInto_withScan {joined : List ProgramLine} (h : CutInto joined p.scan) :
    CutInto (p.withScan joined) p.lines := by
  rw [← p.withScan_scan]
  refine .append (.refl_of_not_isBurn fun line hline ↦ ?_) (.line rfl (.line rfl (.line rfl
    (h.append (.line rfl (.line rfl .nil))))))
  simp only [setup, headerLines, List.mem_append, List.mem_cons, List.not_mem_nil, or_false] at hline
  rcases hline with (rfl | rfl | rfl | rfl) | rfl | rfl | rfl <;> rfl

end Plan

end Engraving
