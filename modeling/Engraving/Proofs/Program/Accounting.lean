import Engraving.Proofs.Program.Completion
import Engraving.Proofs.Program.LineText

/-!
# The sums of a program in the making

While lines are written, the length of the path and the time it takes are summed up beside them. The
sums are kept by the same operations that write the lines, but in steps of their own, and an
operation may stop between one step and the next. What is shown here is that the sums still are
those of the lines, whatever operations were made in whatever order and wherever they stopped.

The reason is that an operation stops before it writes the line of a move or not at all: a length
that can be printed can be added, and the time of a move is found once the feed rate has been
turned into a rate per second. So a move is written and summed up as one, and everything else
leaves the moves alone.
-/

namespace Engraving

/-! ## Operations -/

/-- An operation on a program in the making. -/
inductive Operation where
  | comment (text : String)
  | header (grid : Grid)
  | preamble (grid : Grid) (startX startY : Quantity)
  | row (powers : List ℤ) (leftToRight : Bool)
  | advance
  | footer
  | reset
  | compile (grid : Grid) (startX startY : Quantity)
  | generate

namespace Operation

/-- What an operation does. -/
def action (s : Setting Quantity) : Operation → Compiler Quantity Unit
  | comment text => Compiler.comment text
  | header grid => Compiler.header s grid
  | preamble grid startX startY => Compiler.preamble s grid startX startY
  | row powers leftToRight => Compiler.row s powers leftToRight
  | advance => Compiler.advance s
  | footer => Compiler.footer
  | reset => Compiler.reset
  | compile grid startX startY => Compiler.compile s grid startX startY
  | generate => pure ()

/-- The workpiece that an operation leaves, whether it runs to its end or stops halfway. -/
def after (s : Setting Quantity) (w : Workpiece Quantity) (op : Operation) : Workpiece Quantity :=
  ((op.action s).run.run w).2

end Operation

/-- The workpiece that is there after some operations on a blank one. -/
def Workpiece.afterAll (s : Setting Quantity) (ops : List Operation) : Workpiece Quantity :=
  ops.foldl (Operation.after s) .blank

/-! ## Sums of moves -/

/-- The length of the move on a written line, if there is one. -/
def Setting.length? (s : Setting Quantity) (line : String) : Option Quantity :=
  match line.toList with
  | 'G' :: '1' :: ' ' :: 'X' :: _ => some s.step
  | 'G' :: '1' :: ' ' :: 'Y' :: _ => some s.rowPitch
  | _ => none

/-- Whether a line is a move of the scan. -/
def ProgramLine.isStride : ProgramLine → Bool
  | burn .. | advance .. => true
  | _ => false

/-- The sum of some floats from left to right. -/
def floatSum (xs : List Float) : Float := xs.foldl (· + ·) 0

theorem floatSum_concat (xs : List Float) (x : Float) : floatSum (xs ++ [x]) = floatSum xs + x := by
  rw [floatSum, List.foldl_append, List.foldl_cons, List.foldl_nil, floatSum]

/-- The sums of a workpiece are those of the moves on its lines, at a rate per second. -/
def Workpiece.Accounts (s : Setting Quantity) (rate : Float) (w : Workpiece Quantity) : Prop :=
  ∃ lengths : List Float,
    List.Forall₂ (fun length x ↦ length.toFloat? = .ok x) (w.texts.filterMap s.length?) lengths ∧
    w.distance = .real (floatSum lengths) ∧
    w.elapsed = .real (floatSum (lengths.map fun x ↦ x / rate))

theorem Workpiece.accounts_blank {s : Setting Quantity} {rate : Float} :
    (Workpiece.blank : Workpiece Quantity).Accounts s rate :=
  ⟨[], .nil, rfl, rfl⟩

section lines

variable {s : Setting Quantity}

theorem length?_burn (delta : FixedPoint 3) (power : ℤ) :
    s.length? (ProgramLine.burn delta power).text = some s.step := by
  have hstart : ∃ rest, (ProgramLine.burn delta power).text.toList
      = 'G' :: '1' :: ' ' :: 'X' :: rest := by
    simp only [ProgramLine.text, String.toList_append, List.append_assoc]
    exact ⟨_, rfl⟩
  obtain ⟨rest, hrest⟩ := hstart
  rw [Setting.length?, hrest]
  rfl

theorem length?_advance (delta : FixedPoint 3) :
    s.length? (ProgramLine.advance delta).text = some s.rowPitch := by
  have hstart : ∃ rest, (ProgramLine.advance delta).text.toList
      = 'G' :: '1' :: ' ' :: 'Y' :: rest := by
    rw [ProgramLine.text, String.toList_append]
    exact ⟨_, rfl⟩
  obtain ⟨rest, hrest⟩ := hstart
  rw [Setting.length?, hrest]
  rfl

theorem length?_eq_none {line : ProgramLine} (h : line.isStride = false) :
    s.length? line.text = none := by
  have hstart : line.text.toList.take 2 ≠ ['G', '1'] := by
    cases line with
    | burn | advance => cases h
    | comment | feedRate | place => simp [ProgramLine.text]
    | _ => decide
  rw [Setting.length?]
  split
  · next htext => exact absurd (congrArg (List.take 2) htext) hstart
  · next htext => exact absurd (congrArg (List.take 2) htext) hstart
  · rfl

end lines

/-! ## Properties that operations keep -/

namespace Compiler

variable {β γ : Type} {I : Workpiece Quantity → Prop}

/-- From workpieces with a property an action leads to such, wherever it stops. -/
def Keeps (I : Workpiece Quantity → Prop) (c : Compiler Quantity β) : Prop :=
  ∀ w, I w → I (c.run.run w).2

namespace Keeps

variable {c : Compiler Quantity β} {f : β → Compiler Quantity γ}

theorem pure (b : β) : Keeps I (Pure.pure b) := fun _ hw ↦ hw

theorem bind (hc : Keeps I c) (hf : ∀ b, Keeps I (f b)) : Keeps I (c >>= f) := by
  intro w hw
  have hfirst := hc w hw
  rw [run_bind]
  rcases hrun : c.run.run w with ⟨_ | b, v⟩
  · rw [hrun] at hfirst
    exact hfirst
  · rw [hrun] at hfirst
    exact hf b v hfirst

theorem lift_bind {e : Except NumberError β} (h : ∀ b, e = .ok b → Keeps I (f b)) :
    Keeps I ((liftM e : Compiler Quantity β) >>= f) := by
  rcases e with _ | b
  · intro w hw
    exact hw
  · exact h b rfl

theorem forM {δ : Type} {f : δ → Compiler Quantity PUnit} {items : List δ}
    (hf : ∀ d, Keeps I (f d)) : Keeps I (items.forM f) := by
  induction items with
  | nil => exact pure _
  | cons d rest ih => exact bind (hf d) fun _ ↦ ih

end Keeps

/-! ## Moves -/

section moves

variable {s : Setting Quantity} {rate : Float}

/-- What is no move is written without a change of the sums. -/
theorem keeps_emit {line : ProgramLine} (h : line.isStride = false) :
    Keeps (Workpiece.Accounts s rate) (emit line) := by
  rintro w ⟨lengths, hlengths, hdistance, helapsed⟩
  have htexts : (w.lines.push line).toList.map ProgramLine.text = w.texts ++ [line.text] := by
    rw [Array.toList_push, List.map_append, List.map_singleton, Workpiece.texts]
  refine ⟨lengths, ?_, hdistance, helapsed⟩
  change List.Forall₂ _ (((w.lines.push line).toList.map ProgramLine.text).filterMap _) _
  rw [htexts, List.filterMap_append, List.filterMap_cons_none (length?_eq_none h),
    List.filterMap_nil, List.append_nil]
  exact hlengths

theorem keeps_emitWhole {line : ProgramLine} (h : line.isStride = false) (n : ℤ) :
    Keeps (Workpiece.Accounts s rate) (emitWhole n line) :=
  .lift_bind fun _ _ ↦ keeps_emit h

theorem keeps_header (grid : Grid) : Keeps (Workpiece.Accounts s rate) (header s grid) := by
  refine .lift_bind fun _ _ ↦ .lift_bind fun _ _ ↦ .bind (keeps_emit rfl) fun _ ↦ ?_
  refine .bind (keeps_emitWhole rfl _) fun _ ↦ .lift_bind fun _ _ ↦ .lift_bind fun _ _ ↦ ?_
  refine .bind (keeps_emit rfl) fun _ ↦ .lift_bind fun _ _ ↦ .lift_bind fun _ _ ↦ ?_
  exact keeps_emit rfl

theorem keeps_preamble (grid : Grid) (startX startY : Quantity) :
    Keeps (Workpiece.Accounts s rate) (preamble s grid startX startY) := by
  refine .lift_bind fun _ _ ↦ .lift_bind fun _ _ ↦ .lift_bind fun _ _ ↦ ?_
  refine .bind (keeps_emit rfl) fun _ ↦ .bind (keeps_emit rfl) fun _ ↦ .lift_bind fun _ _ ↦ ?_
  refine .bind (keeps_emitWhole rfl _) fun _ ↦ .lift_bind fun _ _ ↦ .lift_bind fun _ _ ↦ ?_
  refine .bind (keeps_emit rfl) fun _ ↦ .bind (keeps_emit rfl) fun _ ↦ ?_
  exact keeps_emit rfl

theorem keeps_footer : Keeps (Workpiece.Accounts s rate) footer :=
  .bind (keeps_emit rfl) fun _ ↦ keeps_emit rfl

theorem keeps_reset : Keeps (Workpiece.Accounts s rate) reset :=
  fun _ _ ↦ Workpiece.accounts_blank

variable (hrate : s.feedRate.div (.real 60) = .ok (.real rate)) (hne : (rate == 0) = false)

include hrate hne

/-- Once the rate per second is known, a length that is a float is added to both sums. -/
theorem run_travel {length : Quantity} {x : Float} (hx : length.toFloat? = .ok x)
    (hpos : length.isNonpositive = false) (lines : Array ProgramLine) (distance elapsed : Float) :
    (travel s.feedRate length).run.run ⟨lines, .real distance, .real elapsed⟩
      = (.ok (), ⟨lines, .real (distance + x), .real (elapsed + x / rate)⟩) := by
  have hguard : ¬ (Checked.isNonpositive length || Checked.isNonpositive s.feedRate) = true := by
    rw [Bool.not_eq_true, Bool.or_eq_false_iff]
    exact ⟨hpos, s.feedRate_positive⟩
  have hdistance : Checked.add (.real distance) length = .ok (.real (distance + x)) :=
    Quantity.real_add_eq_ok_iff.mpr ⟨x, hx, rfl⟩
  have htime : Checked.div length (.real rate) = .ok (.real (x / rate)) := by
    change length.div (.real rate) = _
    rw [Quantity.div_real, hx]
    change (if rate == 0 then _ else _) = _
    rw [hne]
    rfl
  have hsixty : Checked.div s.feedRate (Checked.literal 60) = .ok (.real rate) := hrate
  rw [travel, if_neg hguard]
  change (liftM (Checked.add (.real distance) length) >>= _ : Compiler Quantity Unit).run.run _ = _
  rw [hdistance]
  change (liftM (Checked.div s.feedRate (Checked.literal 60)) >>= _ :
    Compiler Quantity Unit).run.run _ = _
  rw [hsixty]
  change (liftM (Checked.div length (.real rate)) >>= _ : Compiler Quantity Unit).run.run _ = _
  rw [htime]
  rfl

theorem keeps_move {line : ProgramLine} {length : Quantity} {x : Float}
    (hline : s.length? line.text = some length) (hx : length.toFloat? = .ok x)
    (hpos : length.isNonpositive = false) :
    Keeps (Workpiece.Accounts s rate) (emit line >>= fun _ ↦ travel s.feedRate length) := by
  rintro ⟨lines, _, _⟩ ⟨lengths, hlengths, rfl, rfl⟩
  have hrun : (emit line >>= fun _ ↦ travel s.feedRate length).run.run
      ⟨lines, .real (floatSum lengths), .real (floatSum (lengths.map fun x ↦ x / rate))⟩
        = (.ok (), _) :=
    run_travel hrate hne hx hpos (lines.push line) _ _
  have htexts : (lines.push line).toList.map ProgramLine.text
      = lines.toList.map ProgramLine.text ++ [line.text] := by
    rw [Array.toList_push, List.map_append, List.map_singleton]
  rw [hrun]
  refine ⟨lengths ++ [x], ?_, ?_, ?_⟩
  · change List.Forall₂ _ (((lines.push line).toList.map ProgramLine.text).filterMap _) _
    rw [htexts, List.filterMap_append, List.filterMap_cons_some hline, List.filterMap_nil]
    exact List.rel_append hlengths (.cons hx .nil)
  · rw [floatSum_concat]
  · rw [List.map_append, List.map_singleton, floatSum_concat]

theorem keeps_row (powers : List ℤ) (leftToRight : Bool) :
    Keeps (Workpiece.Accounts s rate) (row s powers leftToRight) := by
  refine .forM fun power ↦ .lift_bind fun delta hdelta ↦ ?_
  obtain ⟨x, hx⟩ : ∃ x, s.step.toFloat? = .ok x := by
    have hprinted := Quantity.fixed?_eq_ok_iff.mp ⟨delta, hdelta⟩
    cases leftToRight
    · exact Quantity.exists_toFloat?_of_neg hprinted
    · exact hprinted
  rw [emitWhole, bind_assoc]
  exact .lift_bind fun _ _ ↦ keeps_move hrate hne (length?_burn delta power) hx s.step_positive

theorem keeps_advance : Keeps (Workpiece.Accounts s rate) (advance s) := by
  refine .lift_bind fun down hdown ↦ ?_
  obtain ⟨x, hx⟩ := Quantity.exists_toFloat?_of_neg (Quantity.fixed?_eq_ok_iff.mp ⟨down, hdown⟩)
  exact keeps_move hrate hne (length?_advance down) hx s.rowPitch_positive

theorem keeps_rows (y : ℕ) (leftToRight : Bool) (grays : List (List UInt8)) :
    Keeps (Workpiece.Accounts s rate) (Compiler.rows s y leftToRight grays) := by
  induction grays generalizing y leftToRight with
  | nil => exact .pure _
  | cons row rest ih =>
    refine .bind (keeps_emit rfl) fun _ ↦ .lift_bind fun powers _ ↦ ?_
    refine .bind (keeps_row hrate hne _ leftToRight) fun _ ↦ ?_
    refine unless_bind rest.isEmpty _ _ ▸ .bind ?_ fun _ ↦ ih (y + 1) (!leftToRight)
    split
    · exact .pure _
    · exact keeps_advance hrate hne

/-- Every operation keeps the sums in step with the lines, also when it stops halfway. -/
theorem keeps_action (op : Operation) : Keeps (Workpiece.Accounts s rate) (op.action s) := by
  cases op with
  | comment text => exact keeps_emit rfl
  | header grid => exact keeps_header grid
  | preamble grid startX startY => exact keeps_preamble grid startX startY
  | row powers leftToRight => exact keeps_row hrate hne powers leftToRight
  | advance => exact keeps_advance hrate hne
  | footer => exact keeps_footer
  | reset => exact keeps_reset
  | compile grid startX startY =>
    exact .bind keeps_reset fun _ ↦ .bind (keeps_header grid) fun _ ↦
      .bind (keeps_preamble grid startX startY) fun _ ↦
        .bind (keeps_rows hrate hne 0 true grid.rows) fun _ ↦ keeps_footer
  | generate => exact .pure _

end moves

end Compiler

/-! ## Sequences of operations -/

/-- One operation after the other keeps the sums in step. -/
theorem Workpiece.Accounts.foldl {s : Setting Quantity} {rate : Float}
    (hrate : s.feedRate.div (.real 60) = .ok (.real rate)) (hne : (rate == 0) = false)
    (ops : List Operation) {w : Workpiece Quantity} (hw : w.Accounts s rate) :
    (ops.foldl (Operation.after s) w).Accounts s rate := by
  induction ops generalizing w with
  | nil => exact hw
  | cons op rest ih =>
    have hop : (op.after s w).Accounts s rate := Compiler.keeps_action hrate hne op w hw
    exact ih hop

/-- **The sums are those of the lines.** After every sequence of operations, of which any may have
stopped halfway, the distance is the sum of the lengths of the moves now in the program, in their
order, and the time is the sum of the times that these take. And a program that is compiled next
comes out as from a blank workpiece. -/
theorem accounts_afterAll {s : Setting Quantity} {rate : Float}
    (hrate : s.feedRate.div (.real 60) = .ok (.real rate)) (hne : (rate == 0) = false)
    (ops : List Operation) :
    (Workpiece.afterAll s ops).Accounts s rate ∧
      ∀ grid startX startY,
        (Compiler.compile s grid startX startY).run.run (Workpiece.afterAll s ops)
          = (Compiler.compile s grid startX startY).run.run .blank := by
  refine ⟨Workpiece.accounts_blank.foldl hrate hne ops, ?_⟩
  intro grid startX startY
  rw [Compiler.run_compile, Compiler.run_compile]

/-- A row that breaks off at a power too long to be written, a remark that speaks of a move, a start
too far out for a float, and a move to the next row. -/
def Operation.interrupted : List Operation :=
  [.row [7, Nat.pow 10 5000, 9] false, .comment "G1 X1.000S7",
    .preamble Grid.small (.whole (Nat.pow 10 400)) (.real 0), .advance]

theorem accounts_afterAll_interrupted :
    Setting.small.feedRate.div (.real 60) = .ok (.real (1000 / 60)) ∧
    ((1000 / 60 : Float) == 0) = false ∧
    (Workpiece.afterAll .small Operation.interrupted).lines.size = 6 ∧
    (Workpiece.afterAll .small Operation.interrupted).Accounts .small (1000 / 60) ∧
    (Compiler.compile .small Grid.small (.real 10) (.whole 20)).run.run
        (Workpiece.afterAll .small Operation.interrupted)
      = (Compiler.compile .small Grid.small (.real 10) (.whole 20)).run.run .blank := by
  have hfeed : Setting.small.feedRate.toFloat? = .ok 1000 := by
    change wholeFloat? 1000 = _
    rw [wholeFloat?, if_pos (by decide +kernel)]
    rfl
  have hrate : Setting.small.feedRate.div (.real 60) = .ok (.real (1000 / 60)) := by
    rw [Quantity.div_real, hfeed]
    rfl
  have hne : ((1000 / 60 : Float) == 0) = false := by decide +kernel
  obtain ⟨haccounts, hcompile⟩ := accounts_afterAll hrate hne Operation.interrupted
  exact ⟨hrate, hne, by decide +kernel, haccounts, hcompile Grid.small (.real 10) (.whole 20)⟩

end Engraving
