import Engraving.Duration
import Engraving.Proofs.Program.Completion

/-!
# The length of a scan, summed up and in closed form

While a program is written its length and duration are summed up move by move; in closed form they
are told from the size of the image alone. Over the rational numbers the two agree: a row of `n`
pixels is `n` steps long, and there is one move down fewer than there are rows.

Every move adds to both sums, and it adds the same length to the one as the other is given time for.
So a part of a program is described by a single number, the length of its path: `Covers`. Since
rational numbers can always be computed with, a program stops only where an integer has too many
digits to be written, and `Covers` carries along when that is.
-/

namespace Engraving

theorem isNonpositive_eq_false_iff {q : ℚ} : Checked.isNonpositive q = false ↔ 0 < q := by
  change decide (q ≤ 0) = false ↔ 0 < q
  rw [decide_eq_false_iff_not, not_le]

theorem div_eq_ok {p q : ℚ} (hq : q ≠ 0) : Checked.div p q = .ok (p / q) := if_neg hq

theorem div_sixty (q : ℚ) : Checked.div q (Checked.literal 60) = .ok (q / 60) :=
  div_eq_ok (show ((60 : ℕ) : ℚ) ≠ 0 by norm_num)

namespace Compiler

variable {β γ : Type} {feedRate : ℚ}

/-- From any workpiece `c` runs to its end exactly when `P` holds, and then a path of the given
length has been added to the sums, at a feed rate per minute. -/
def Covers (feedRate : ℚ) (c : Compiler ℚ β) (P : Prop) (length : ℚ) : Prop :=
  ∀ w, match c.run.run w with
    | (.ok _, w') => P ∧ w'.distance = w.distance + length ∧
        w'.elapsed = w.elapsed + length / (feedRate / 60)
    | (.error _, _) => ¬ P

namespace Covers

variable {c : Compiler ℚ β} {f : β → Compiler ℚ γ} {P Q : Prop} {length rest : ℚ}

theorem congr {length' : ℚ} (h : Covers feedRate c P length) (hPQ : P ↔ Q)
    (hlength : length = length') : Covers feedRate c Q length' :=
  propext hPQ ▸ hlength ▸ h

theorem pure (b : β) : Covers feedRate (Pure.pure b) True 0 := by
  intro w
  refine ⟨trivial, (add_zero _).symm, ?_⟩
  rw [zero_div, add_zero]

/-- Two parts in a row cover the sum of their lengths. -/
theorem bind (hc : Covers feedRate c P length) (hf : ∀ b, Covers feedRate (f b) Q rest) :
    Covers feedRate (c >>= f) (P ∧ Q) (length + rest) := by
  intro w
  have hfirst := hc w
  rw [run_bind]
  rcases hrun : c.run.run w with ⟨_ | b, v⟩
  · rw [hrun] at hfirst
    exact mt And.left hfirst
  · rw [hrun] at hfirst
    obtain ⟨hP, hdistance, helapsed⟩ := hfirst
    have hrest := hf b v
    simp only
    rcases hrun' : (f b).run.run v with ⟨_ | b', v'⟩
    · rw [hrun'] at hrest
      exact mt And.right hrest
    · rw [hrun'] at hrest
      obtain ⟨hQ, hdistance', helapsed'⟩ := hrest
      refine ⟨⟨hP, hQ⟩, ?_, ?_⟩
      · rw [hdistance', hdistance, add_assoc]
      · rw [helapsed', helapsed, add_assoc, add_div]

theorem lift_bind {e : Except NumberError β} {Q : β → Prop}
    (h : ∀ b, e = .ok b → Covers feedRate (f b) (Q b) length) :
    Covers feedRate ((liftM e : Compiler ℚ β) >>= f) (∃ b, e = .ok b ∧ Q b) length := by
  rcases e with failure | b
  · rintro w ⟨_, ⟨⟩, -⟩
  · refine (h b rfl).congr ?_ rfl
    exact ⟨fun hQ ↦ ⟨b, rfl, hQ⟩, fun ⟨_, hb, hQ⟩ ↦ Except.ok.inj hb ▸ hQ⟩

theorem lift_bind_of_ok {e : Except NumberError β} {b : β} (he : e = .ok b)
    (h : Covers feedRate (f b) P length) :
    Covers feedRate ((liftM e : Compiler ℚ β) >>= f) P length := by
  rw [he]
  exact h

theorem emit (line : ProgramLine) : Covers feedRate (Compiler.emit line) True 0 :=
  fun w ↦ pure () w

theorem emit_bind {line : ProgramLine} {f : Unit → Compiler ℚ γ}
    (h : Covers feedRate (f ()) P length) : Covers feedRate (Compiler.emit line >>= f) P length :=
  fun w ↦ h { w with lines := w.lines.push line }

theorem emitWhole_bind {n : ℤ} {line : ProgramLine} {f : Unit → Compiler ℚ γ}
    (h : ∀ u, Covers feedRate (f u) P length) : Covers feedRate (Compiler.emitWhole n line >>= f)
      ((∃ text, wholeText? n = .ok text) ∧ P) length := by
  rw [Compiler.emitWhole, bind_assoc]
  refine (lift_bind fun _ _ ↦ emit_bind (h ())).congr ?_ rfl
  exact exists_and_right

/-- A loop covers the length of its body once for every item. -/
theorem forM {δ : Type} {f : δ → Compiler ℚ PUnit} {items : List δ}
    (hf : ∀ d ∈ items, Covers feedRate (f d) True length) :
    Covers feedRate (items.forM f) True (items.length * length) := by
  induction items with
  | nil =>
    refine (pure PUnit.unit).congr Iff.rfl ?_
    rw [List.length_nil, Nat.cast_zero, zero_mul]
  | cons d rest ih =>
    obtain ⟨hd, hrest⟩ := List.forall_mem_cons.mp hf
    refine (bind hd fun _ ↦ ih hrest).congr (and_self_iff) ?_
    rw [List.length_cons, Nat.cast_succ, add_one_mul, add_comm]

end Covers

/-! ## The parts of a program -/

theorem covers_travel {length : ℚ} (hfeed : Checked.isNonpositive feedRate = false)
    (hlength : Checked.isNonpositive length = false) :
    Covers feedRate (travel feedRate length) True length := by
  rintro ⟨lines, distance, elapsed⟩
  have hguard : ¬ (Checked.isNonpositive length || Checked.isNonpositive feedRate) = true := by
    rw [Bool.not_eq_true, Bool.or_eq_false_iff]
    exact ⟨hlength, hfeed⟩
  have htime : Checked.div length (feedRate / 60) = .ok (length / (feedRate / 60)) :=
    div_eq_ok (div_pos (isNonpositive_eq_false_iff.mp hfeed) (by norm_num)).ne'
  have hsum (a b : ℚ) : Checked.add a b = .ok (a + b) := rfl
  have hrun : (travel feedRate length).run.run ⟨lines, distance, elapsed⟩
      = (.ok (), ⟨lines, distance + length, elapsed + length / (feedRate / 60)⟩) := by
    rw [travel, if_neg hguard, div_sixty]
    change (ExceptT.run (do
      let time ← (liftM (Checked.div length (feedRate / 60)) : Compiler ℚ ℚ)
      let elapsed ← Checked.add (← get).elapsed time
      modify fun w ↦ { w with elapsed })).run ⟨lines, distance + length, elapsed⟩ = _
    rw [htime]
    rfl
  rw [hrun]
  exact ⟨trivial, rfl, rfl⟩

variable {s : Setting ℚ}

theorem covers_row {powers : List ℤ} (leftToRight : Bool)
    (hpowers : ∀ power ∈ powers, ∃ text, wholeText? power = .ok text) :
    Covers s.feedRate (row s powers leftToRight) True (powers.length * s.step) := by
  have hmove (power : ℤ) (hpower : ∃ text, wholeText? power = .ok text) :
      Covers s.feedRate (do
        let delta ← liftM (Checked.fixed? 3 (if leftToRight then s.step else Checked.neg s.step))
        emitWhole power (.burn delta power)
        travel s.feedRate s.step) True s.step := by
    refine .lift_bind_of_ok rfl ?_
    refine (Covers.emitWhole_bind fun _ ↦
      covers_travel s.feedRate_positive s.step_positive).congr ?_ rfl
    exact iff_true_intro ⟨hpower, trivial⟩
  rw [row]
  cases leftToRight with
  | true => exact .forM fun power h ↦ hmove power (hpowers power h)
  | false =>
    refine (Covers.forM fun power h ↦
      hmove power (hpowers power (List.mem_reverse.mp h))).congr Iff.rfl ?_
    exact congrArg (fun n : ℕ ↦ (n : ℚ) * s.step) List.length_reverse

theorem covers_advance : Covers s.feedRate (advance s) True s.rowPitch :=
  .lift_bind_of_ok rfl (.emit_bind (covers_travel s.feedRate_positive s.rowPitch_positive))

/-- Rows of one width cover their pixels, and one move down fewer than there are rows. -/
theorem covers_rows (y : ℕ) (leftToRight : Bool) {n : ℕ} {grays : List (List UInt8)}
    (hlength : ∀ row ∈ grays, row.length = n) :
    Covers s.feedRate (rows s y leftToRight grays)
      (∀ row ∈ grays, row ≠ [] → ∃ percent, s.maxPower.truncate? = .ok percent)
      (grays.length * (n * s.step) + (grays.length - 1 : ℕ) * s.rowPitch) := by
  induction grays generalizing y leftToRight with
  | nil =>
    refine (Covers.pure PUnit.unit).congr ?_ ?_
    · exact (iff_true_intro fun _ h ↦ absurd h List.not_mem_nil).symm
    · simp
  | cons grays rest ih =>
    obtain ⟨hfirst, hrest⟩ := List.forall_mem_cons.mp hlength
    -- Behind the last row there is no move down.
    have hdown : Covers s.feedRate (if rest.isEmpty then pure () else advance s) True
        (rest.length * s.rowPitch - (rest.length - 1 : ℕ) * s.rowPitch) := by
      cases rest with
      | nil => exact (Covers.pure ()).congr Iff.rfl (by simp)
      | cons => exact covers_advance.congr Iff.rfl (by simp; ring)
    have hafter := hdown.bind fun _ ↦ ih (y + 1) (!leftToRight) hrest
    rw [← unless_bind] at hafter
    have hrow (powers : List ℕ) (hpowers : powers? s.maxPower s.invert grays = .ok powers) :=
      (covers_row (s := s) leftToRight (exists_wholeText?_of_mem_powers hpowers)).bind
        fun _ ↦ hafter
    have hcount {powers : List ℕ} (hpowers : powers? s.maxPower s.invert grays = .ok powers) :
        (powers.map Int.ofNat).length = n := by
      rw [List.length_map, ← (mapM_eq_ok_iff.mp hpowers).length_eq, hfirst]
    refine (Covers.emit_bind (.lift_bind fun powers hpowers ↦
      (hrow powers hpowers).congr Iff.rfl ?_)).congr ?_ rfl
    · rw [hcount hpowers, List.length_cons, Nat.add_sub_cancel, Nat.cast_succ]
      ring
    · rw [List.forall_mem_cons, exists_and_right, exists_powers?_eq_ok_iff]
      exact and_congr_right fun _ ↦ by rw [true_and, true_and]

theorem covers_footer : Covers feedRate footer True 0 :=
  .emit_bind (.emit .restoreAbsolute)

theorem covers_header (grid : Grid) : Covers s.feedRate (header s grid)
    ((∃ text, wholeText? grid.width = .ok text) ∧ ∃ text, s.maxPower.text? = .ok text) 0 := by
  refine .lift_bind_of_ok rfl (.lift_bind_of_ok rfl (.emit_bind ?_))
  refine Covers.emitWhole_bind fun _ ↦ .lift_bind_of_ok rfl (.lift_bind_of_ok rfl (.emit_bind ?_))
  refine (Covers.lift_bind fun _ _ ↦ .lift_bind_of_ok rfl (.emit _)).congr ?_ rfl
  simp only [and_true]

theorem covers_preamble (grid : Grid) (startX startY : ℚ) :
    Covers s.feedRate (preamble s grid startX startY)
      (∃ text, wholeText? (nearestEven s.feedRate) = .ok text) 0 := by
  refine .lift_bind_of_ok rfl (.lift_bind_of_ok rfl (.lift_bind_of_ok rfl
    (.emit_bind (.emit_bind (.lift_bind_of_ok rfl ?_)))))
  refine (Covers.emitWhole_bind fun _ ↦ .lift_bind_of_ok rfl (.lift_bind_of_ok rfl
    (.emit_bind (.emit_bind (.emit _))))).congr ?_ rfl
  exact and_iff_left trivial

/-- The whole program of a grid of pixels covers its rows and the moves between them. -/
theorem covers_program {grid : Grid} {n : ℕ} (hwidth : grid.width = n) (startX startY : ℚ) :
    Covers s.feedRate (program s grid startX startY)
      ((∃ text, wholeText? grid.width = .ok text) ∧ (∃ text, s.maxPower.text? = .ok text) ∧
        (∃ text, wholeText? (nearestEven s.feedRate) = .ok text) ∧
        (0 < grid.width → 0 < grid.height → ∃ percent, s.maxPower.truncate? = .ok percent))
      (grid.height * (n * s.step) + (grid.height - 1 : ℕ) * s.rowPitch) := by
  have hlength (row : List UInt8) (hrow : row ∈ grid.rows) : row.length = n := by
    exact_mod_cast (grid.uniform row hrow).trans hwidth
  have hparts := (covers_header (s := s) grid).bind fun _ ↦
    (covers_preamble grid startX startY).bind fun _ ↦
      (covers_rows 0 true hlength).bind fun _ ↦ covers_footer
  refine hparts.congr ?_ ?_
  · rw [grid.forall_row_iff, and_true, and_assoc]
  · rw [add_zero, zero_add, zero_add]
    rfl

end Compiler

/-! ## The two accounts of a scan -/

/-- The integers that the program of a grid shows have few enough digits, and the greatest power has
an integer part. -/
structure IsWritable (grid : Grid) (maxPower : Quantity) (feedRate : ℚ) : Prop where
  columns : ∃ text, wholeText? grid.width = .ok text
  power : ∃ text, maxPower.text? = .ok text
  rate : ∃ text, wholeText? (nearestEven feedRate) = .ok text
  percent : ∃ percent, maxPower.truncate? = .ok percent

/-- The sums of a workpiece are the length and the duration of a scan in closed form. -/
def Workpiece.IsEstimated (w : Workpiece ℚ) (grid : Grid) (width height feedRate : ℚ) : Prop :=
  engravingDistance? (grid.width : ℚ) grid.height width height = .ok w.distance ∧
    engravingTime? w.distance feedRate = .ok w.elapsed

section estimate

variable {grid : Grid} {width height feedRate : ℚ}

/-- The sides of an engraving are divided among the pixels. -/
theorem exists_forSize?_rat (hcolumns : 0 < grid.width) (hrows : 0 < grid.height)
    (hwidth : 0 < width) (hheight : 0 < height) (hfeed : 0 < feedRate) (maxPower : Quantity)
    (invert : Bool) :
    ∃ s, Setting.forSize? grid width height maxPower feedRate invert = .ok s ∧
      s.maxPower = maxPower ∧ s.feedRate = feedRate ∧ s.step = width / grid.width ∧
      s.rowPitch = height / grid.height := by
  have hcount : (0 : ℚ) < grid.width := by exact_mod_cast hcolumns
  have hlines : (0 : ℚ) < grid.height := by exact_mod_cast hrows
  have hpixels : ¬ (decide (grid.width = 0) || decide (grid.height = 0)) = true := by
    simp [hcolumns.ne', hrows.ne']
  have hstep : Checked.div width (Checked.ofWhole grid.width) = .ok (width / grid.width) :=
    div_eq_ok hcount.ne'
  have hpitch : Checked.div height (Checked.ofWhole grid.height) = .ok (height / grid.height) :=
    div_eq_ok hlines.ne'
  rw [Setting.forSize?, if_neg hpixels, hstep, hpitch]
  simp only [Setting.of?]
  rw [dif_pos (isNonpositive_eq_false_iff.mpr hfeed),
    dif_pos (isNonpositive_eq_false_iff.mpr (div_pos hwidth hcount)),
    dif_pos (isNonpositive_eq_false_iff.mpr (div_pos hheight hlines))]
  exact ⟨_, rfl, rfl, rfl, rfl, rfl⟩

theorem engravingDistance?_eq (hcolumns : 0 < grid.width) (hrows : 0 < grid.height) :
    engravingDistance? (grid.width : ℚ) grid.height width height
      = .ok (width * grid.height + (grid.height - 1) * (height / grid.height)) := by
  have hcount : (0 : ℚ) < grid.width := by exact_mod_cast hcolumns
  have hlines : (0 : ℚ) < grid.height := by exact_mod_cast hrows
  have hguard : ¬ (Checked.isNonpositive (grid.width : ℚ)
      || Checked.isNonpositive (grid.height : ℚ)) = true := by
    rw [Bool.not_eq_true, Bool.or_eq_false_iff]
    exact ⟨isNonpositive_eq_false_iff.mpr hcount, isNonpositive_eq_false_iff.mpr hlines⟩
  rw [engravingDistance?, if_neg hguard, div_eq_ok hlines.ne']
  change Except.ok
    (width * grid.height + (grid.height - ((1 : ℤ) : ℚ)) * (height / grid.height)) = _
  rw [Int.cast_one]

theorem engravingTime?_eq {distance : ℚ} (hdistance : 0 < distance) (hfeed : 0 < feedRate) :
    engravingTime? distance feedRate = .ok (distance / (feedRate / 60)) := by
  have hguard : ¬ (Checked.isNonpositive distance || Checked.isNonpositive feedRate) = true := by
    rw [Bool.not_eq_true, Bool.or_eq_false_iff]
    exact ⟨isNonpositive_eq_false_iff.mpr hdistance, isNonpositive_eq_false_iff.mpr hfeed⟩
  rw [engravingTime?, if_neg hguard, div_sixty]
  exact div_eq_ok (div_pos hfeed (by norm_num)).ne'

/-- **The length of a scan in closed form is its length summed up**, and so is its duration, over
the rational numbers. A setting for a physical size exists, and whatever was compiled before, the
compiler stops exactly where an integer cannot be written; else its sums are the ones in closed
form. -/
theorem isEstimated_compile (hcolumns : 0 < grid.width) (hrows : 0 < grid.height)
    (hwidth : 0 < width) (hheight : 0 < height) (hfeed : 0 < feedRate) (maxPower : Quantity)
    (invert : Bool) :
    ∃ s, Setting.forSize? grid width height maxPower feedRate invert = .ok s ∧
      ∀ startX startY before, match (Compiler.compile s grid startX startY).run.run before with
        | (.ok _, w) => IsWritable grid maxPower feedRate ∧ w.IsEstimated grid width height feedRate
        | (.error _, _) => ¬ IsWritable grid maxPower feedRate := by
  obtain ⟨s, hs, rfl, rfl, hstep, hpitch⟩ :=
    exists_forSize?_rat hcolumns hrows hwidth hheight hfeed maxPower invert
  refine ⟨s, hs, fun startX startY before ↦ ?_⟩
  obtain ⟨n, hn⟩ := Int.eq_ofNat_of_zero_le hcolumns.le
  have hcount : (n : ℚ) = grid.width := by rw [hn, Int.cast_natCast]
  have hcountPos : (0 : ℚ) < grid.width := by exact_mod_cast hcolumns
  have hlines : (1 : ℚ) ≤ grid.height := by exact_mod_cast hrows
  have hcovers := Compiler.covers_program (s := s) hn startX startY .blank
  have hlength : grid.height * (n * s.step) + (grid.height - 1 : ℕ) * s.rowPitch
      = width * grid.height + (grid.height - 1) * (height / grid.height) := by
    rw [hstep, hpitch, hcount, mul_div_cancel₀ _ hcountPos.ne', mul_comm,
      Nat.cast_pred hrows]
  have hpos : 0 < width * grid.height + (grid.height - 1) * (height / grid.height) :=
    add_pos_of_pos_of_nonneg (mul_pos hwidth (by linarith))
      (mul_nonneg (by linarith) (div_nonneg hheight.le (by linarith)))
  rw [hlength] at hcovers
  rw [Compiler.run_compile]
  rcases hrun : (Compiler.program s grid startX startY).run.run .blank with ⟨_ | ⟨⟩, w⟩
  · rw [hrun] at hcovers
    intro h
    exact hcovers ⟨h.columns, h.power, h.rate, fun _ _ ↦ h.percent⟩
  · rw [hrun] at hcovers
    obtain ⟨⟨htext, hpower, hrate, hpercent⟩, hdistance, helapsed⟩ := hcovers
    -- The sums begin at zero.
    have hblank : (Workpiece.blank : Workpiece ℚ).distance = 0 := Nat.cast_zero
    rw [hblank, zero_add] at hdistance
    have hblank' : (Workpiece.blank : Workpiece ℚ).elapsed = 0 := Nat.cast_zero
    rw [hblank', zero_add] at helapsed
    refine ⟨⟨htext, hpower, hrate, hpercent hcolumns hrows⟩, ?_, ?_⟩
    · rw [hdistance, engravingDistance?_eq hcolumns hrows]
    · rw [hdistance, helapsed, engravingTime?_eq hpos hfeed]

end estimate

theorem isWritable_small : IsWritable Grid.small (.whole 80) 1000 := by
  have hsmall (n : ℤ) (hn : |(n : ℚ)| ≤ 2 ^ 10) : ∃ text, wholeText? n = .ok text :=
    exists_wholeText?_of_abs_le (hn.trans (pow_le_pow_right₀ one_le_two (by norm_num)))
  have hrate : nearestEven 1000 = 1000 := nearestEven_intCast 1000
  refine ⟨hsmall 3 (by norm_num), hsmall 80 (by norm_num), ?_, 80, rfl⟩
  rw [hrate]
  exact hsmall 1000 (by norm_num)

/-- Two rows of 30 millimetres and one move of 10 millimetres between them. -/
theorem isEstimated_compile_small :
    (0 < Grid.small.width ∧ 0 < Grid.small.height) ∧ ((0 : ℚ) < 30 ∧ (0 : ℚ) < 20 ∧
      (0 : ℚ) < 1000) ∧
      ∃ s w, Setting.forSize? Grid.small (30 : ℚ) 20 (.whole 80) 1000 false = .ok s ∧
        compile? s Grid.small 0 0 = .ok w ∧ w.IsEstimated Grid.small 30 20 1000 ∧
        w.distance = 70 := by
  have hsize : 0 < Grid.small.width ∧ 0 < Grid.small.height := by decide
  have hpositive : (0 : ℚ) < 30 ∧ (0 : ℚ) < 20 ∧ (0 : ℚ) < 1000 := by norm_num
  obtain ⟨s, hs, hrun⟩ := isEstimated_compile hsize.1 hsize.2 hpositive.1 hpositive.2.1
    hpositive.2.2 (.whole 80) false
  have hcompile := hrun 0 0 .blank
  refine ⟨hsize, hpositive, s, ?_⟩
  rw [compile?]
  rcases houtcome : (Compiler.compile s Grid.small 0 0).run.run .blank with ⟨_ | ⟨⟩, w⟩
  · rw [houtcome] at hcompile
    exact absurd isWritable_small hcompile
  · rw [houtcome] at hcompile
    refine ⟨w, hs, rfl, hcompile.2, ?_⟩
    have hdistance := hcompile.2.1
    rw [engravingDistance?_eq hsize.1 hsize.2] at hdistance
    rw [← Except.ok.inj hdistance]
    change (30 * (2 : ℕ) + ((2 : ℕ) - 1) * (20 / (2 : ℕ)) : ℚ) = 70
    norm_num

end Engraving
