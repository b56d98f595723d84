import Engraving.Proofs.Number.FixedPoint
import Engraving.Proofs.Power
import Engraving.Proofs.Program.Strides

/-!
# When a program is finished

Whether a program is finished depends on the size of the grid and on the setting, and on the feed
rate only as far as it becomes a float.
-/

namespace Engraving

/-! ## Conditions on the numbers

Writing a program stops where a number cannot be written or computed with. The numbers are few: the
ones in the header, the feed rate, the place of the topmost row, and the step and the row pitch,
which are added to the sums move by move. So whether a program is finished does not depend on what
is in the grid, but on a handful of conditions on its size and on the setting.

An action may stop or not depending on the sums that it finds. These are measured numbers at all
times, and as such they never make it stop: `FinishesWhen` carries this along.
-/

/-- The sums of a workpiece are measured numbers. -/
def Workpiece.IsMeasured (w : Workpiece Quantity) : Prop :=
  ∃ distance elapsed : Float, w.distance = .real distance ∧ w.elapsed = .real elapsed

theorem Workpiece.isMeasured_blank : (blank : Workpiece Quantity).IsMeasured :=
  ⟨Float.ofNat 0, Float.ofNat 0, rfl, rfl⟩

namespace Compiler

variable {β γ : Type}

/-- From measured sums `c` runs to its end exactly when `P` holds, and the sums stay measured. -/
def FinishesWhen (c : Compiler Quantity β) (P : Prop) : Prop :=
  ∀ w, w.IsMeasured →
    match c.run.run w with
    | (.ok _, w') => P ∧ w'.IsMeasured
    | (.error _, _) => ¬ P

namespace FinishesWhen

variable {c : Compiler Quantity β} {f : β → Compiler Quantity γ} {P Q : Prop}

theorem congr (h : FinishesWhen c P) (hPQ : P ↔ Q) : FinishesWhen c Q := propext hPQ ▸ h

theorem pure (b : β) : FinishesWhen (Pure.pure b) True := fun _ hw ↦ ⟨trivial, hw⟩

theorem bind (hc : FinishesWhen c P) (hf : ∀ b, FinishesWhen (f b) Q) :
    FinishesWhen (c >>= f) (P ∧ Q) := by
  intro w hw
  have hfirst := hc w hw
  rw [run_bind]
  match hrun : c.run.run w with
  | (.error _, _) =>
    rw [hrun] at hfirst
    exact mt And.left hfirst
  | (.ok b, v) =>
    rw [hrun] at hfirst
    have hrest := hf b v hfirst.2
    simp only
    match hrun' : (f b).run.run v with
    | (.error _, _) =>
      rw [hrun'] at hrest
      exact mt And.right hrest
    | (.ok _, _) =>
      rw [hrun'] at hrest
      exact ⟨⟨hfirst.1, hrest.1⟩, hrest.2⟩

theorem lift_bind {e : Except NumberError β} {Q : β → Prop}
    (h : ∀ b, e = .ok b → FinishesWhen (f b) (Q b)) :
    FinishesWhen ((liftM e : Compiler Quantity β) >>= f) (∃ b, e = .ok b ∧ Q b) := by
  match e with
  | .error _ => exact fun w _ ⟨_, h, _⟩ ↦ (nomatch h)
  | .ok b =>
    have hexists : Q b ↔ ∃ b', Except.ok b = (Except.ok b' : Except NumberError β) ∧ Q b' :=
      ⟨fun hQ ↦ ⟨b, rfl, hQ⟩, fun ⟨_, h, hQ⟩ ↦ by cases h; exact hQ⟩
    exact (h b rfl).congr hexists

theorem lift_bind_of_forall {e : Except NumberError β}
    (h : ∀ b, e = .ok b → FinishesWhen (f b) True) :
    FinishesWhen ((liftM e : Compiler Quantity β) >>= f) (∃ b, e = .ok b) :=
  (lift_bind h).congr (exists_congr fun _ ↦ and_iff_left trivial)

theorem emit_bind {line : ProgramLine} {f : Unit → Compiler Quantity γ}
    (h : FinishesWhen (f ()) Q) : FinishesWhen (Compiler.emit line >>= f) Q := fun w hw ↦
  h { w with lines := w.lines.push line } hw

theorem emit (line : ProgramLine) : FinishesWhen (Compiler.emit line) True :=
  fun _ hw ↦ ⟨trivial, hw⟩

theorem emitWhole (n : ℤ) (line : ProgramLine) :
    FinishesWhen (Compiler.emitWhole n line) (∃ text, wholeText? n = .ok text) :=
  lift_bind_of_forall fun _ _ ↦ emit line

theorem forM {δ : Type} {f : δ → Compiler Quantity PUnit} {items : List δ}
    (hf : ∀ d ∈ items, FinishesWhen (f d) P) : FinishesWhen (items.forM f) (items ≠ [] → P) := by
  induction items with
  | nil => exact (pure PUnit.unit).congr ⟨fun _ h ↦ absurd rfl h, fun _ ↦ trivial⟩
  | cons d rest ih =>
    obtain ⟨hd, hrest⟩ := List.forall_mem_cons.mp hf
    refine (bind hd fun _ ↦ ih hrest).congr ?_
    exact ⟨fun h _ ↦ h.1, fun h ↦ ⟨h (List.cons_ne_nil _ _), fun _ ↦ h (List.cons_ne_nil _ _)⟩⟩

theorem get_bind {f : Workpiece Quantity → Compiler Quantity γ}
    (h : ∀ w, w.IsMeasured → FinishesWhen (f w) Q) : FinishesWhen (get >>= f) Q :=
  fun w hw ↦ h w hw w hw

theorem of_modify {g : Workpiece Quantity → Workpiece Quantity}
    (hg : ∀ w, w.IsMeasured → (g w).IsMeasured) :
    FinishesWhen (modify g : Compiler Quantity PUnit) True :=
  fun w hw ↦ ⟨trivial, hg w hw⟩

end FinishesWhen

end Compiler

/-! ### Moves -/

namespace Quantity

/-- A move of some length at some feed rate takes a time that can be told. -/
def CanTime (feedRate length : Quantity) : Prop :=
  ∃ rate, feedRate.div (.real 60) = .ok rate ∧ ∃ time, length.div rate = .ok time

/-- A move of some length at some feed rate can be added to the sums. -/
def CanTravel (feedRate length : Quantity) : Prop :=
  (∃ x, length.toFloat? = .ok x) ∧ feedRate.CanTime length

variable {a b c : Quantity} {x : Float}

theorem exists_real_of_div (h : a.div b = .ok c) : ∃ x, c = .real x := by
  cases a with
  | whole m =>
    cases b with
    | whole n =>
      obtain ⟨x, -, hx⟩ := bind_eq_ok_iff.mp h
      exact ⟨x, (Except.ok.inj hx).symm⟩
    | real y =>
      obtain ⟨x, -, h⟩ := bind_eq_ok_iff.mp h
      obtain ⟨y, -, h⟩ := bind_eq_ok_iff.mp h
      split at h
      · cases h
      · exact ⟨x / y, (Except.ok.inj h).symm⟩
  | real x =>
    obtain ⟨x, -, h⟩ := bind_eq_ok_iff.mp h
    obtain ⟨y, -, h⟩ := bind_eq_ok_iff.mp h
    split at h
    · cases h
    · exact ⟨x / y, (Except.ok.inj h).symm⟩

theorem real_add_eq_ok_iff :
    (real x).add a = .ok c ↔ ∃ y, a.toFloat? = .ok y ∧ c = .real (x + y) := by
  change (a.toFloat? >>= fun y ↦ Except.ok (real (x + y))) = _ ↔ _
  rw [bind_eq_ok_iff]
  exact exists_congr fun y ↦ and_congr_right fun _ ↦
    ⟨fun h ↦ (Except.ok.inj h).symm, fun h ↦ h ▸ rfl⟩

theorem fixed?_eq_ok_iff {places : ℕ} :
    (∃ d, a.fixed? places = .ok d) ↔ ∃ x, a.toFloat? = .ok x := by
  constructor
  · rintro ⟨d, hd⟩
    obtain ⟨x, hx, -⟩ := bind_eq_ok_iff.mp hd
    exact ⟨x, hx⟩
  · rintro ⟨x, hx⟩
    exact ⟨_, bind_eq_ok_iff.mpr ⟨x, hx, rfl⟩⟩

theorem exists_toFloat?_neg (h : ∃ x, a.toFloat? = .ok x) : ∃ x, a.neg.toFloat? = .ok x := by
  cases a with
  | real x => exact ⟨-x, rfl⟩
  | whole n =>
    obtain ⟨x, hx⟩ := h
    obtain ⟨y, hy, -⟩ := Denotes.neg ⟨x, hx, denotes_of_wholeFloat? hx⟩
    exact ⟨y, hy⟩

theorem exists_toFloat?_of_neg (h : ∃ x, a.neg.toFloat? = .ok x) : ∃ x, a.toFloat? = .ok x := by
  cases a with
  | real x => exact ⟨x, rfl⟩
  | whole n =>
    have htwice := exists_toFloat?_neg h
    rwa [neg, neg, neg_neg] at htwice

end Quantity

namespace Compiler

variable {feedRate length : Quantity}

/-- Adds the time of a move to the sums, which is the second half of `travel`. -/
def addTime (feedRate length : Quantity) : Compiler Quantity Unit := do
  let time ← Checked.div length (← Checked.div feedRate (Checked.literal 60))
  let elapsed ← Checked.add (← get).elapsed time
  modify fun w ↦ { w with elapsed }

theorem finishesWhen_addTime : FinishesWhen (addTime feedRate length) (feedRate.CanTime length) := by
  refine .lift_bind fun rate _ ↦ .lift_bind_of_forall fun time htime ↦ .get_bind fun w hw ↦ ?_
  -- The time is a measured number and so is the sum, so adding them cannot fail.
  obtain ⟨t, rfl⟩ := Quantity.exists_real_of_div htime
  obtain ⟨_, elapsed, -, helapsed⟩ := hw
  have hmodify : FinishesWhen
      (modify fun w ↦ { w with elapsed := .real (elapsed + t) } : Compiler Quantity PUnit) True := by
    refine .of_modify fun w hw ↦ ?_
    obtain ⟨distance, -, hdistance, -⟩ := hw
    exact ⟨distance, elapsed + t, hdistance, rfl⟩
  rw [helapsed]
  exact hmodify

theorem finishesWhen_travel (hfeed : feedRate.isNonpositive = false)
    (hlength : length.isNonpositive = false) :
    FinishesWhen (travel feedRate length) (feedRate.CanTravel length) := by
  have hguard : ¬ (Checked.isNonpositive length || Checked.isNonpositive feedRate) = true := by
    rw [Bool.not_eq_true, Bool.or_eq_false_iff]
    exact ⟨hlength, hfeed⟩
  rw [travel, if_neg hguard]
  refine .get_bind fun w hw ↦ ?_
  obtain ⟨distance, _, hdistance, -⟩ := hw
  rw [hdistance]
  have hsum (total : Quantity) (h : Checked.add (.real distance) length = .ok total) :
      FinishesWhen ((modify fun w ↦ { w with distance := total }) >>= fun _ ↦
        addTime feedRate length) (True ∧ feedRate.CanTime length) := by
    obtain ⟨x, -, rfl⟩ := Quantity.real_add_eq_ok_iff.mp h
    refine .bind (.of_modify fun w hw ↦ ?_) fun _ ↦ finishesWhen_addTime
    obtain ⟨_, elapsed, -, helapsed⟩ := hw
    exact ⟨distance + x, elapsed, rfl, helapsed⟩
  refine (FinishesWhen.lift_bind hsum).congr ?_
  constructor
  · rintro ⟨total, h, -, htime⟩
    obtain ⟨x, hx, -⟩ := Quantity.real_add_eq_ok_iff.mp h
    exact ⟨⟨x, hx⟩, htime⟩
  · rintro ⟨⟨x, hx⟩, htime⟩
    exact ⟨_, Quantity.real_add_eq_ok_iff.mpr ⟨x, hx, rfl⟩, trivial, htime⟩

/-! ### The parts of a program -/

variable (s : Setting Quantity) (grid : Grid) (startX startY : Quantity)

/-- A row whose powers can be written is finished when a single move along it is. -/
theorem finishesWhen_row {powers : List ℤ} (leftToRight : Bool)
    (hpowers : ∀ power ∈ powers, ∃ text, wholeText? power = .ok text) :
    FinishesWhen (row s powers leftToRight)
      (powers ≠ [] → s.feedRate.CanTravel s.step) := by
  have hmove (power : ℤ) (hpower : ∃ text, wholeText? power = .ok text) : FinishesWhen (do
      let delta ← liftM (Checked.fixed? 3 (if leftToRight then s.step else Checked.neg s.step))
      emitWhole power (.burn delta power)
      travel s.feedRate s.step) (s.feedRate.CanTravel s.step) := by
    refine (FinishesWhen.lift_bind fun _ _ ↦ (FinishesWhen.emitWhole power _).bind fun _ ↦
      finishesWhen_travel s.feedRate_positive s.step_positive).congr ?_
    refine ⟨fun ⟨_, _, _, h⟩ ↦ h, fun h ↦ ?_⟩
    obtain ⟨d, hd⟩ : ∃ d, (if leftToRight then s.step else s.step.neg).fixed? 3 = .ok d := by
      rw [Quantity.fixed?_eq_ok_iff]
      cases leftToRight
      · exact Quantity.exists_toFloat?_neg h.1
      · exact h.1
    exact ⟨d, hd, hpower, h⟩
  have hmem {power : ℤ} (h : power ∈ if leftToRight then powers else powers.reverse) :
      power ∈ powers := by
    cases leftToRight
    · exact List.mem_reverse.mp h
    · exact h
  have hordered : (if leftToRight then powers else powers.reverse) ≠ [] ↔ powers ≠ [] := by
    cases leftToRight
    · exact not_congr List.reverse_eq_nil_iff
    · exact Iff.rfl
  exact (FinishesWhen.forM fun power h ↦ hmove power (hpowers power (hmem h))).congr
    (imp_congr_left hordered)

theorem finishesWhen_advance :
    FinishesWhen (advance s) (s.feedRate.CanTravel s.rowPitch) := by
  refine (FinishesWhen.lift_bind fun _ _ ↦ .emit_bind
    (finishesWhen_travel s.feedRate_positive s.rowPitch_positive)).congr ?_
  refine ⟨fun ⟨_, _, h⟩ ↦ h, fun h ↦ ?_⟩
  obtain ⟨d, hd⟩ := Quantity.fixed?_eq_ok_iff.mpr (Quantity.exists_toFloat?_neg h.1)
  exact ⟨d, hd, h⟩

theorem exists_powers?_eq_ok_iff {maxPower : Quantity} {invert : Bool} {grays : List UInt8} :
    (∃ powers, powers? maxPower invert grays = .ok powers) ↔
      (grays ≠ [] → ∃ n, maxPower.truncate? = .ok n) := by
  constructor
  · rintro ⟨powers, h⟩ hne
    cases mapM_eq_ok_iff.mp h with
    | nil => exact absurd rfl hne
    | cons hpower _ =>
      obtain ⟨n, hn, -⟩ := power?_eq_ok hpower
      exact ⟨n, hn⟩
  · intro h
    induction grays with
    | nil => exact ⟨[], rfl⟩
    | cons gray rest ih =>
      obtain ⟨n, hn⟩ := h (List.cons_ne_nil _ _)
      obtain ⟨powers, hpowers⟩ := ih fun _ ↦ ⟨n, hn⟩
      have hpower : ∃ power, power? maxPower invert gray = .ok power := by
        rw [power?, powerCeiling?, hn]
        exact ⟨_, rfl⟩
      obtain ⟨power, hpower⟩ := hpower
      exact ⟨power :: powers, mapM_eq_ok_iff.mpr (.cons hpower (mapM_eq_ok_iff.mp hpowers))⟩

theorem exists_wholeText?_of_mem_powers {maxPower : Quantity} {invert : Bool} {grays : List UInt8}
    {powers : List ℕ} (h : powers? maxPower invert grays = .ok powers) :
    ∀ power ∈ powers.map Int.ofNat, ∃ text, wholeText? power = .ok text := by
  intro power hpower
  obtain ⟨n, hn, rfl⟩ := List.mem_map.mp hpower
  obtain ⟨gray, -, hgray⟩ := exists_of_mem_mapM h hn
  refine exists_wholeText?_of_abs_le ?_
  have hle : (n : ℚ) ≤ 1000 := by exact_mod_cast power?_le hgray
  have hlarge : (1000 : ℚ) ≤ 2 ^ 1026 :=
    le_trans (by norm_num) (pow_le_pow_right₀ one_le_two (show 10 ≤ 1026 by norm_num))
  rw [Int.ofNat_eq_natCast, Int.cast_natCast, Nat.abs_cast]
  exact hle.trans hlarge

/-- The rows of a grid are finished when one move along a row and one to the next row are, as far as
there are such moves. -/
theorem finishesWhen_rows (y : ℕ) (leftToRight : Bool) (grays : List (List UInt8)) :
    FinishesWhen (Compiler.rows s y leftToRight grays)
      ((∀ row ∈ grays, row ≠ [] → (∃ n, s.maxPower.truncate? = .ok n) ∧
        s.feedRate.CanTravel s.step) ∧
        (1 < grays.length → s.feedRate.CanTravel s.rowPitch)) := by
  induction grays generalizing y leftToRight with
  | nil => exact (FinishesWhen.pure PUnit.unit).congr (by simp)
  | cons row rest ih =>
    -- Behind the last row there is no move to a next one.
    have hadvance : FinishesWhen (if rest.isEmpty then pure () else advance s)
        (rest ≠ [] → s.feedRate.CanTravel s.rowPitch) := by
      cases rest with
      | nil => exact (FinishesWhen.pure PUnit.unit).congr (by simp)
      | cons next later => exact (finishesWhen_advance s).congr (by simp)
    have hafter := hadvance.bind fun _ ↦ ih (y + 1) (!leftToRight)
    rw [← unless_bind] at hafter
    refine (FinishesWhen.emit_bind (.lift_bind fun powers hpowers ↦
      (finishesWhen_row s leftToRight (exists_wholeText?_of_mem_powers hpowers)).bind
        fun _ ↦ hafter)).congr ?_
    have hne {powers : List ℕ} (h : powers? s.maxPower s.invert row = .ok powers) :
        powers.map Int.ofNat ≠ [] ↔ row ≠ [] := by
      have hlength := (mapM_eq_ok_iff.mp h).length_eq
      rw [← List.length_pos_iff, ← List.length_pos_iff, List.length_map, hlength]
    constructor
    · rintro ⟨powers, hpowers, hrow, hdown, hrest, -⟩
      have hpercent := exists_powers?_eq_ok_iff.mp ⟨powers, hpowers⟩
      refine ⟨List.forall_mem_cons.mpr
        ⟨fun h ↦ ⟨hpercent h, hrow ((hne hpowers).mpr h)⟩, hrest⟩, ?_⟩
      intro h
      refine hdown ?_
      rintro rfl
      exact absurd h (by simp)
    · rintro ⟨hrows, hdown⟩
      obtain ⟨hrow, hrest⟩ := List.forall_mem_cons.mp hrows
      obtain ⟨powers, hpowers⟩ := exists_powers?_eq_ok_iff.mpr fun h ↦ (hrow h).1
      refine ⟨powers, hpowers, fun h ↦ (hrow ((hne hpowers).mp h)).2, fun h ↦ hdown ?_, hrest,
        fun h ↦ hdown ?_⟩
      · rw [List.length_cons]
        exact Nat.lt_add_of_pos_left (List.length_pos_iff.mpr h)
      · rw [List.length_cons]
        exact h.trans (Nat.lt_succ_self _)

theorem finishesWhen_footer : FinishesWhen footer True :=
  .emit_bind (.emit .restoreAbsolute)

theorem finishesWhen_header : FinishesWhen (header s grid)
    ((∃ text, wholeText? grid.width = .ok text) ∧
      (∃ d, (Checked.mul (Checked.ofWhole grid.width) s.step >>= Checked.fixed? 2) = .ok d) ∧
      (∃ d, (Checked.mul (Checked.ofWhole grid.height) s.rowPitch >>= Checked.fixed? 2) = .ok d) ∧
      (∃ text, s.maxPower.text? = .ok text) ∧ ∃ text, Checked.text? s.feedRate = .ok text) := by
  refine (FinishesWhen.lift_bind fun _ _ ↦ .lift_bind fun _ _ ↦ .emit_bind
    ((FinishesWhen.emitWhole _ _).bind fun _ ↦
      .lift_bind fun _ _ ↦ .lift_bind fun _ _ ↦ .emit_bind (.lift_bind fun _ _ ↦
        .lift_bind_of_forall fun _ _ ↦ .emit _))).congr ?_
  simp only [bind_eq_ok_iff]
  tauto

theorem finishesWhen_preamble : FinishesWhen (preamble s grid startX startY)
    ((∃ rate, Checked.nearest? s.feedRate = .ok rate ∧ ∃ text, wholeText? rate = .ok text) ∧
      (∃ d, Checked.fixed? 3 startX = .ok d) ∧
      ∃ d, (topOf? s grid startY >>= Checked.fixed? 3) = .ok d) := by
  refine (FinishesWhen.lift_bind fun _ _ ↦ .lift_bind fun _ _ ↦ .lift_bind fun _ _ ↦ .emit_bind
    (.emit_bind (.lift_bind fun _ _ ↦ (FinishesWhen.emitWhole _ _).bind fun _ ↦
      .lift_bind fun _ _ ↦ .lift_bind_of_forall fun _ _ ↦
        .emit_bind (.emit_bind (.emit _))))).congr ?_
  simp only [topOf?, bind_eq_ok_iff]
  tauto

theorem finishesWhen_reset : FinishesWhen reset True :=
  fun _ _ ↦ ⟨trivial, Workpiece.isMeasured_blank⟩

end Compiler

/-! ### Whole programs -/

/-- All numbers that take part in writing the program of a grid can be written and computed with. -/
structure Setting.CanCompile (s : Setting Quantity) (grid : Grid) (startX startY : Quantity) :
    Prop where
  width : ∃ d, (Checked.mul (Checked.ofWhole grid.width) s.step >>= Checked.fixed? 2) = .ok d
  height : ∃ d, (Checked.mul (Checked.ofWhole grid.height) s.rowPitch >>= Checked.fixed? 2) = .ok d
  maxPower : ∃ text, s.maxPower.text? = .ok text
  feedRate : ∃ text, Checked.text? s.feedRate = .ok text
  rate : ∃ rate, Checked.nearest? s.feedRate = .ok rate
  left : ∃ d, Checked.fixed? 3 startX = .ok d
  top : ∃ d, (topOf? s grid startY >>= Checked.fixed? 3) = .ok d
  /-- If there are pixels, one of them has a power and is moved along. -/
  pixel : 0 < grid.width → 0 < grid.height →
    (∃ n, s.maxPower.truncate? = .ok n) ∧ s.feedRate.CanTravel s.step
  /-- If there are two rows, the head moves from one to the other. -/
  descent : 1 < grid.height → s.feedRate.CanTravel s.rowPitch

theorem Grid.forall_row_iff (grid : Grid) {P : Prop} :
    (∀ row ∈ grid.rows, row ≠ [] → P) ↔ (0 < grid.width → 0 < grid.height → P) := by
  constructor
  · intro h hwidth hheight
    obtain ⟨row, hrow⟩ := List.exists_mem_of_length_pos hheight
    refine h row hrow ?_
    rintro rfl
    exact absurd (grid.uniform [] hrow) hwidth.ne
  · intro h row hrow hne
    refine h ?_ (List.length_pos_of_mem hrow)
    rw [← grid.uniform row hrow]
    exact_mod_cast List.length_pos_iff.mpr hne

theorem finishesWhen_compile (s : Setting Quantity) (grid : Grid) (startX startY : Quantity) :
    Compiler.FinishesWhen (Compiler.compile s grid startX startY)
      (s.CanCompile grid startX startY) := by
  have hparts := Compiler.finishesWhen_reset.bind fun _ ↦
    (Compiler.finishesWhen_header s grid).bind fun _ ↦
      (Compiler.finishesWhen_preamble s grid startX startY).bind fun _ ↦
        (Compiler.finishesWhen_rows s 0 true grid.rows).bind fun _ ↦ Compiler.finishesWhen_footer
  refine hparts.congr ?_
  rw [grid.forall_row_iff]
  constructor
  · rintro ⟨-, ⟨-, hwidth, hheight, hpower, hfeed⟩, ⟨⟨rate, hrate, -⟩, hleft, htop⟩,
      ⟨hpixel, hdescent⟩, -⟩
    exact ⟨hwidth, hheight, hpower, hfeed, ⟨rate, hrate⟩, hleft, htop, hpixel, hdescent⟩
  · intro h
    -- The width of the grid and the rounded feed rate are shown as integers, and are floats, too.
    obtain ⟨_, hwidth⟩ := h.width
    have hcolumns := Quantity.exists_wholeText?_of_mul s.step_positive hwidth
    obtain ⟨_, hfeed⟩ := h.feedRate
    obtain ⟨rate, hrate⟩ := h.rate
    have hrateText := Quantity.exists_wholeText?_of_nearest? hfeed hrate
    exact ⟨trivial, ⟨hcolumns, h.width, h.height, h.maxPower, h.feedRate⟩,
      ⟨⟨rate, hrate, hrateText⟩, h.left, h.top⟩, ⟨h.pixel, h.descent⟩, trivial⟩

/-- **When a program is finished.** The gray values do not matter, and the size of the grid matters
only to the header, to the place of the topmost row, and by whether there are moves at all. -/
theorem exists_compile?_iff {s : Setting Quantity} {grid : Grid} {startX startY : Quantity} :
    (∃ w, compile? s grid startX startY = .ok w) ↔ s.CanCompile grid startX startY := by
  have hrun := finishesWhen_compile s grid startX startY .blank Workpiece.isMeasured_blank
  rw [compile?]
  generalize (Compiler.compile s grid startX startY).run.run .blank = outcome at hrun ⊢
  obtain ⟨e | ⟨⟩, w⟩ := outcome
  · exact iff_of_false (by rintro ⟨_, ⟨⟩⟩) hrun
  · exact iff_of_true ⟨w, rfl⟩ hrun.1

/-- The sums of a finished program are measured numbers. -/
theorem isMeasured_of_compile? {s : Setting Quantity} {grid : Grid} {startX startY : Quantity}
    {w : Workpiece Quantity} (h : compile? s grid startX startY = .ok w) : w.IsMeasured := by
  have hrun := finishesWhen_compile s grid startX startY .blank Workpiece.isMeasured_blank
  rw [compile?] at h
  generalize (Compiler.compile s grid startX startY).run.run .blank = outcome at hrun h
  obtain ⟨e | ⟨⟩, v⟩ := outcome
  · cases h
  · cases h
    exact hrun.2

/-! ## Feed rates that a move can be timed with

The time of a move is its length by the feed rate per second. A feed rate that is written as a
positive integer is at least a half, so a sixtieth of it is not zero as a float either, and every
length can be divided by it. What may be missing is the float itself, for an integer may be too
large to be one.
-/

theorem Denotes.beq_zero {x : Float} {q : ℚ} (hx : Denotes x q) (hq : 0 < q) :
    (x == 0) = false := by
  rw [← Bool.not_eq_true, beq_iff_of_compare (hx.compare_eq denotes_zero)]
  exact hq.ne'

namespace Quantity

variable {feedRate length : Quantity} {n : ℤ} {q : ℚ} {x : Float}

/-- A feed rate that is written as a positive integer is at least a half. -/
theorem exists_denotes_of_nearest? (h : feedRate.nearest? = .ok n) (hn : 0 < n)
    (hx : feedRate.toFloat? = .ok x) : ∃ q, feedRate.Denotes q ∧ 1 / 2 ≤ q := by
  have hone : (1 : ℚ) ≤ n := by exact_mod_cast hn
  cases feedRate with
  | real y =>
    obtain ⟨q, hq, hnear⟩ := Engraving.exists_denotes_of_nearest? h
    have hclose := abs_le.mp hnear.abs_sub_le
    exact ⟨q, ⟨y, rfl, hq⟩, by linarith⟩
  | whole m =>
    cases h
    refine ⟨_, ⟨x, hx, denotes_of_wholeFloat? hx⟩, ?_⟩
    have hclose := abs_le.mp (abs_nearestBinary_sub_le n)
    have htiny : (2 : ℚ) ^ (-1075 : ℤ) ≤ 2 ^ (-2 : ℤ) :=
      zpow_le_zpow_right₀ one_le_two (by norm_num)
    rw [abs_of_pos (by linarith)] at hclose
    generalize (2 : ℚ) ^ (-1075 : ℤ) = tiny at hclose htiny
    norm_num at hclose htiny
    linarith

theorem div_real (a : Quantity) (y : Float) : a.div (.real y)
    = a.toFloat? >>= fun x ↦ if y == 0 then .error .divisionByZero else .ok (.real (x / y)) := by
  cases a <;> rfl

theorem exists_toFloat?_of_canTime (h : feedRate.CanTime length) :
    ∃ x, feedRate.toFloat? = .ok x := by
  obtain ⟨rate, hrate, -⟩ := h
  rw [div_real] at hrate
  obtain ⟨x, hx, -⟩ := bind_eq_ok_iff.mp hrate
  exact ⟨x, hx⟩

/-- A sixtieth of a feed rate of a half or more is still positive as a float. -/
theorem canTime_of_denotes (hrate : feedRate.Denotes q) (hq : 1 / 2 ≤ q)
    (hlength : ∃ x, length.toFloat? = .ok x) : feedRate.CanTime length := by
  obtain ⟨f, hf, hvalue⟩ := hrate
  obtain ⟨x, hx⟩ := hlength
  have hsixty : Engraving.Denotes (60 : Float) (60 : ℕ) := denotes_ofNat (by norm_num)
  have hsmall : |q / 60| ≤ 2 ^ 1022 := by
    have hlt := (abs_lt.mp hvalue.abs_lt).2
    have hlarge : (0 : ℚ) < 2 ^ 1022 := by positivity
    rw [show 1024 = 1022 + 2 from rfl, pow_add] at hlt
    rw [abs_of_pos (by positivity), div_le_iff₀ (by norm_num)]
    generalize (2 : ℚ) ^ 1022 = large at hlt hlarge ⊢
    linarith
  obtain ⟨r, hr, herror⟩ := (isRounded_div hvalue hsixty (by norm_num)).exists_denotes hsmall
  have hpos : 0 < r := by
    have htiny : (2 : ℚ) ^ (-1075 : ℤ) ≤ 2 ^ (-10 : ℤ) :=
      zpow_le_zpow_right₀ one_le_two (by norm_num)
    have hclose := (abs_le.mp herror).1
    rw [abs_of_pos (by positivity)] at hclose
    generalize (2 : ℚ) ^ (-1075 : ℤ) = tiny at hclose htiny
    norm_num at hclose htiny
    linarith
  refine ⟨.real (f / 60), ?_, .real (x / (f / 60)), ?_⟩
  · rw [div_real, hf]
    rfl
  · rw [div_real, hx]
    change (if f / 60 == 0 then _ else _) = _
    rw [hr.beq_zero hpos]
    rfl

/-- A feed rate that is written as a positive integer need only be a float to be moved at. -/
theorem canTravel_iff (h : feedRate.nearest? = .ok n) (hn : 0 < n) :
    feedRate.CanTravel length ↔
      (∃ x, length.toFloat? = .ok x) ∧ ∃ x, feedRate.toFloat? = .ok x := by
  refine and_congr_right fun hlength ↦ ⟨exists_toFloat?_of_canTime, ?_⟩
  rintro ⟨x, hx⟩
  obtain ⟨q, hq, hhalf⟩ := exists_denotes_of_nearest? h hn hx
  exact canTime_of_denotes hq hhalf hlength

end Quantity

end Engraving
