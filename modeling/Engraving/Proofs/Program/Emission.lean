import Engraving.Program.Compiler
import Engraving.Proofs.Except
import Mathlib.Data.Int.Notation

/-!
# The lines that a compiler writes

A compiler only ever adds lines. What it adds is described by a predicate on the added lines alone,
`Writes`, so that a whole program is described part by part, without speaking of the lines that
were there before or of the sums that are kept along the way.

The result is the form of every program that is ever finished, `Plan.lines`: four remarks, the
preparation of the machine, the scan, and two closing lines. A plan holds the written forms of all
numbers of a program together with the facts that say of what they are the written forms.
-/

namespace Engraving

variable {α β : Type}

/-! ## Writing -/

namespace Compiler

/-- What follows an action is run on the workpiece that the action leaves. -/
theorem run_bind {γ : Type} (c : Compiler α β) (f : β → Compiler α γ) (w : Workpiece α) :
    (c >>= f).run.run w
      = match c.run.run w with
        | (.ok b, v) => (f b).run.run v
        | (.error e, v) => (.error e, v) := by
  change (match c.run.run w with | (r, v) => ExceptT.bindCont f r v) = _
  rcases c.run.run w with ⟨_ | _, _⟩ <;> rfl

theorem unless_bind {γ : Type} (b : Bool) (c : Compiler α PUnit) (rest : Compiler α γ) :
    (if b then rest else c >>= fun _ ↦ rest)
      = ((if b then Pure.pure () else c) >>= fun _ ↦ rest) := by
  cases b <;> rfl

/-- A run of `c` that does not stop halfway adds lines of which `post` holds. -/
def Writes (c : Compiler α β) (post : List ProgramLine → Prop) : Prop :=
  ∀ w b w', c.run.run w = (.ok b, w') →
    ∃ added, w'.lines.toList = w.lines.toList ++ added ∧ post added

namespace Writes

variable {γ : Type} {c : Compiler α β} {f : β → Compiler α γ} {post : List ProgramLine → Prop}

theorem bind {first : List ProgramLine → Prop} (hc : Writes c first)
    (hf : ∀ b added, first added → Writes (f b) fun rest ↦ post (added ++ rest)) :
    Writes (c >>= f) post := by
  intro w b w' h
  rw [run_bind] at h
  match hfirst : c.run.run w with
  | (.error e, v) =>
    rw [hfirst] at h
    cases h
  | (.ok a, v) =>
    rw [hfirst] at h
    obtain ⟨added, hadded, hpost⟩ := hc w a v hfirst
    obtain ⟨rest, hrest, hend⟩ := hf a added hpost v b w' h
    exact ⟨added ++ rest, by rw [hrest, hadded, List.append_assoc], hend⟩

theorem pure {b : β} (h : post []) : Writes (Pure.pure b : Compiler α β) post := by
  rintro w _ _ ⟨⟩
  exact ⟨[], (List.append_nil _).symm, h⟩

theorem lift_bind {e : Except NumberError β}
    (h : ∀ b, e = .ok b → Writes (f b) post) : Writes ((liftM e : Compiler α β) >>= f) post := by
  match e with
  | .error _ =>
    rintro w b w' ⟨⟩
  | .ok b => exact h b rfl

theorem emit {line : ProgramLine} (h : post [line]) :
    Writes (Compiler.emit line : Compiler α Unit) post := by
  rintro w _ _ ⟨⟩
  exact ⟨[line], Array.toList_push, h⟩

theorem emit_bind {line : ProgramLine} {f : Unit → Compiler α γ}
    (h : Writes (f ()) fun rest ↦ post (line :: rest)) :
    Writes (Compiler.emit line >>= f) post := by
  have hline : Writes (Compiler.emit line : Compiler α Unit) (· = [line]) := emit rfl
  refine bind hline ?_
  rintro _ _ rfl
  exact h

theorem emitWhole_bind {n : ℤ} {line : ProgramLine} {f : Unit → Compiler α γ}
    (h : Writes (f ()) fun rest ↦ post (line :: rest)) :
    Writes (Compiler.emitWhole n line >>= f) post := by
  have hline : Writes (Compiler.emitWhole n line : Compiler α Unit) (· = [line]) :=
    lift_bind fun _ _ ↦ emit rfl
  refine bind hline ?_
  rintro _ _ rfl
  exact h

theorem forM {δ : Type} {f : δ → Compiler α PUnit} {lineOf : δ → ProgramLine} {items : List δ}
    (hf : ∀ d ∈ items, Writes (f d) (· = [lineOf d])) :
    Writes (items.forM f) (· = items.map lineOf) := by
  induction items with
  | nil => exact pure rfl
  | cons d rest ih =>
    refine bind (hf d List.mem_cons_self) ?_
    rintro _ _ rfl
    intro w b w' h
    obtain ⟨added, hadded, rfl⟩ := ih (fun d hd ↦ hf d (List.mem_cons_of_mem _ hd)) w b w' h
    exact ⟨_, hadded, rfl⟩

theorem silent_bind (hc : Writes c (· = [])) (hf : ∀ b, Writes (f b) post) :
    Writes (c >>= f) post := by
  refine bind hc ?_
  rintro b _ rfl
  exact hf b

end Writes

theorem writes_get : Writes (get : Compiler α (Workpiece α)) (· = []) := by
  rintro w _ _ ⟨⟩
  exact ⟨[], (List.append_nil _).symm, rfl⟩

theorem writes_modify {g : Workpiece α → Workpiece α} (hg : ∀ w, (g w).lines = w.lines) :
    Writes (modify g : Compiler α PUnit) (· = []) := by
  rintro w _ _ ⟨⟩
  exact ⟨[], by rw [hg, List.append_nil], rfl⟩

variable [Checked α]

theorem writes_travel (feedRate length : α) : Writes (travel feedRate length) (· = []) := by
  rw [travel]
  split
  · exact .pure rfl
  · refine .silent_bind writes_get fun w ↦ .lift_bind fun distance _ ↦ ?_
    refine .silent_bind (writes_modify fun _ ↦ rfl) fun _ ↦ ?_
    refine .lift_bind fun rate _ ↦ .lift_bind fun time _ ↦ ?_
    refine .silent_bind writes_get fun w ↦ .lift_bind fun elapsed _ ↦ ?_
    exact writes_modify fun _ ↦ rfl

end Compiler

/-! ## The parts of a program -/

variable [Checked α]

/-- What a length is printed as, where it is printed at all. -/
def printed (q : α) : FixedPoint 3 :=
  match Checked.fixed? 3 q with
  | .ok d => d
  | .error _ => .undefined

theorem printed_eq {q : α} {d : FixedPoint 3} (h : Checked.fixed? 3 q = .ok d) :
    printed q = d := by
  rw [printed, h]

theorem fixed?_eq_printed {q : α} (h : (printed q).isFinite = true) :
    Checked.fixed? 3 q = .ok (printed q) := by
  rw [printed] at h ⊢
  match hq : Checked.fixed? 3 q with
  | .ok _ => rfl
  | .error _ =>
    rw [hq] at h
    cases h

/-- The moves that a scan is made of, as they are printed. -/
structure Strides where
  right : FixedPoint 3
  left : FixedPoint 3
  down : FixedPoint 3

def Setting.strides (s : Setting α) : Strides where
  right := printed s.step
  left := printed (Checked.neg s.step)
  down := printed (Checked.neg s.rowPitch)

/-- The remarks at the head of a program. -/
def headerLines (grid : Grid) (width height : FixedPoint 2) (maxPower feedRate : String) :
    List ProgramLine :=
  [.comment "Raster engraving program",
    .comment ("Image size: " ++ toString grid.width ++ "x" ++ toString grid.height ++ " pixels"),
    .comment ("Physical size: " ++ width.text ++ "mm x " ++ height.text ++ "mm"),
    .comment ("Max power: " ++ maxPower ++ "%, feed rate: " ++ feedRate ++ "mm/min")]

/-- The lines that prepare the machine. -/
def preambleLines (rate : ℤ) (left top : FixedPoint 3) : List ProgramLine :=
  [.millimetres, .absolute, .feedRate rate, .place left top, .laserOn, .relative]

/-- The moves of a row, whose powers are given from left to right. -/
def rowLines (strides : Strides) (leftToRight : Bool) (powers : List ℕ) : List ProgramLine :=
  (if leftToRight then powers else powers.reverse).map fun (power : ℕ) ↦
    .burn (if leftToRight then strides.right else strides.left) power

/-- The lines of the rows from row `y` on. -/
def scanLines (strides : Strides) (y : ℕ) (leftToRight : Bool) :
    List (List ℕ) → List ProgramLine
  | [] => []
  | powers :: rest =>
    .comment ("Row " ++ toString y) :: (rowLines strides leftToRight powers ++
      ((if rest.isEmpty then [] else [.advance strides.down]) ++
        scanLines strides (y + 1) (!leftToRight) rest))

/-- A line of a scan. -/
inductive IsScanLine (strides : Strides) : ProgramLine → Prop
  | comment (y : ℕ) : IsScanLine strides (.comment ("Row " ++ toString y))
  | right (power : ℕ) : IsScanLine strides (.burn strides.right power)
  | left (power : ℕ) : IsScanLine strides (.burn strides.left power)
  | down : IsScanLine strides (.advance strides.down)

theorem isScanLine_of_mem_scanLines {strides : Strides} {y : ℕ} {leftToRight : Bool}
    {powers : List (List ℕ)} {line : ProgramLine}
    (h : line ∈ scanLines strides y leftToRight powers) : IsScanLine strides line := by
  induction powers generalizing y leftToRight with
  | nil => cases h
  | cons row rest ih =>
    rw [scanLines, List.mem_cons, List.mem_append, List.mem_append] at h
    rcases h with rfl | hrow | hadvance | hrest
    · exact .comment y
    · obtain ⟨power, -, rfl⟩ := List.mem_map.mp hrow
      cases leftToRight
      · exact .left power
      · exact .right power
    · split at hadvance
      · cases hadvance
      · rw [List.mem_singleton.mp hadvance]
        exact .down
    · exact ih hrest

def footerLines : List ProgramLine := [.laserOff, .restoreAbsolute]

def topOf? (s : Setting α) (grid : Grid) (startY : α) : Except NumberError α := do
  let height ← Checked.mul (Checked.ofWhole grid.height) s.rowPitch
  Checked.sub (← Checked.add startY height) s.rowPitch

/-- The written forms of all numbers of a program. -/
structure Plan (s : Setting α) (grid : Grid) (startX startY : α) where
  width : FixedPoint 2
  height : FixedPoint 2
  maxPower : String
  feedRate : String
  rate : ℤ
  left : FixedPoint 3
  top : FixedPoint 3
  powers : List (List ℕ)
  width_eq : (Checked.mul (Checked.ofWhole grid.width) s.step >>= Checked.fixed? 2) = .ok width
  height_eq :
    (Checked.mul (Checked.ofWhole grid.height) s.rowPitch >>= Checked.fixed? 2) = .ok height
  maxPower_eq : s.maxPower.text? = .ok maxPower
  feedRate_eq : Checked.text? s.feedRate = .ok feedRate
  rate_eq : Checked.nearest? s.feedRate = .ok rate
  left_eq : Checked.fixed? 3 startX = .ok left
  top_eq : (topOf? s grid startY >>= Checked.fixed? 3) = .ok top
  powers_eq : grid.rows.mapM (powers? s.maxPower s.invert) = .ok powers

def Plan.lines {s : Setting α} {grid : Grid} {startX startY : α}
    (p : Plan s grid startX startY) : List ProgramLine :=
  headerLines grid p.width p.height p.maxPower p.feedRate ++
    (preambleLines p.rate p.left p.top ++ (scanLines s.strides 0 true p.powers ++ footerLines))

namespace Plan

variable {s : Setting α} {grid : Grid} {startX startY : α} (p : Plan s grid startX startY)

/-- A line of a plan. -/
inductive IsLine : ProgramLine → Prop
  | header {line : ProgramLine}
    (h : line ∈ headerLines grid p.width p.height p.maxPower p.feedRate) : IsLine line
  | mode {line : ProgramLine} (h : line ∈ [.millimetres, .absolute, .feedRate p.rate, .laserOn,
      .relative, .laserOff, .restoreAbsolute]) : IsLine line
  | place : IsLine (.place p.left p.top)
  | scan {line : ProgramLine} (h : IsScanLine s.strides line) : IsLine line

variable {p}

theorem isLine_of_mem_lines {line : ProgramLine} (h : line ∈ p.lines) : p.IsLine line := by
  rw [lines, List.mem_append, List.mem_append, List.mem_append] at h
  rcases h with h | h | h | h
  · exact .header h
  · simp only [preambleLines, List.mem_cons, List.not_mem_nil, or_false] at h
    rcases h with rfl | rfl | rfl | rfl | rfl | rfl
    · exact .mode (by simp)
    · exact .mode (by simp)
    · exact .mode (by simp)
    · exact .place
    · exact .mode (by simp)
    · exact .mode (by simp)
  · exact .scan (isScanLine_of_mem_scanLines h)
  · simp only [footerLines, List.mem_cons, List.not_mem_nil, or_false] at h
    rcases h with rfl | rfl
    · exact .mode (by simp)
    · exact .mode (by simp)

end Plan

/-! ## What each part of the compiler writes -/

namespace Compiler

variable (s : Setting α) (grid : Grid) (startX startY : α)

theorem writes_header : Writes (header s grid) fun added ↦
    ∃ width height maxPower feedRate,
      (Checked.mul (Checked.ofWhole grid.width) s.step >>= Checked.fixed? 2) = .ok width ∧
      (Checked.mul (Checked.ofWhole grid.height) s.rowPitch >>= Checked.fixed? 2) = .ok height ∧
      s.maxPower.text? = .ok maxPower ∧ Checked.text? s.feedRate = .ok feedRate ∧
      added = headerLines grid width height maxPower feedRate := by
  refine .lift_bind fun w hw ↦ .lift_bind fun h hh ↦ .emit_bind (.emitWhole_bind ?_)
  refine .lift_bind fun width hwidth ↦ .lift_bind fun height hheight ↦ .emit_bind ?_
  refine .lift_bind fun maxPower hpower ↦ .lift_bind fun feedRate hfeed ↦ .emit ?_
  refine ⟨width, height, maxPower, feedRate, ?_, ?_, hpower, hfeed, rfl⟩
  · rw [hw]
    exact hwidth
  · rw [hh]
    exact hheight

theorem writes_preamble : Writes (preamble s grid startX startY) fun added ↦
    ∃ rate left top, Checked.nearest? s.feedRate = .ok rate ∧ Checked.fixed? 3 startX = .ok left ∧
      (topOf? s grid startY >>= Checked.fixed? 3) = .ok top ∧
      added = preambleLines rate left top := by
  refine .lift_bind fun height hheight ↦ .lift_bind fun sum hsum ↦ .lift_bind fun y hy ↦ ?_
  refine .emit_bind (.emit_bind (.lift_bind fun rate hrate ↦ .emitWhole_bind ?_))
  refine .lift_bind fun left hleft ↦ .lift_bind fun top htop ↦ .emit_bind ?_
  refine .emit_bind (.emit ⟨rate, left, top, hrate, hleft, ?_, rfl⟩)
  have hsub : topOf? s grid startY = .ok y := by
    rw [topOf?, hheight]
    change (Checked.add startY height).bind _ = _
    rw [hsum]
    exact hy
  rw [hsub]
  exact htop

theorem writes_row (powers : List ℕ) (leftToRight : Bool) :
    Writes (row s (powers.map Int.ofNat) leftToRight)
      (· = rowLines s.strides leftToRight powers) := by
  have hdelta : printed (if leftToRight then s.step else Checked.neg s.step)
      = if leftToRight then s.strides.right else s.strides.left := by
    cases leftToRight <;> rfl
  have hordered : (if leftToRight then powers.map Int.ofNat else (powers.map Int.ofNat).reverse)
      = (if leftToRight then powers else powers.reverse).map Int.ofNat := by
    cases leftToRight
    · exact List.map_reverse.symm
    · rfl
  have hmoves : Writes (row s (powers.map Int.ofNat) leftToRight)
      (· = (if leftToRight then powers.map Int.ofNat else (powers.map Int.ofNat).reverse).map
        (.burn (if leftToRight then s.strides.right else s.strides.left))) := by
    refine .forM fun power _ ↦ .lift_bind fun delta hprint ↦ .emitWhole_bind ?_
    intro w b w' h
    obtain ⟨added, hadded, rfl⟩ := writes_travel s.feedRate s.step w b w' h
    exact ⟨[], hadded, by rw [← hdelta, printed_eq hprint]⟩
  rw [hordered, List.map_map] at hmoves
  exact hmoves

theorem writes_advance : Writes (advance s) (· = [.advance s.strides.down]) := by
  refine .lift_bind fun down hdown ↦ .emit_bind ?_
  intro w b w' h
  obtain ⟨added, hadded, rfl⟩ := writes_travel s.feedRate s.rowPitch w b w' h
  exact ⟨[], hadded, by rw [Setting.strides, printed_eq hdown]⟩

theorem writes_rows (y : ℕ) (leftToRight : Bool) (rows : List (List UInt8)) :
    Writes (Compiler.rows s y leftToRight rows) fun added ↦
      ∃ powers, rows.mapM (powers? s.maxPower s.invert) = .ok powers ∧
        added = scanLines s.strides y leftToRight powers := by
  induction rows generalizing y leftToRight with
  | nil => exact .pure ⟨[], rfl, rfl⟩
  | cons grays rest ih =>
    refine .emit_bind (.lift_bind fun powers hpowers ↦ .bind (writes_row s powers leftToRight) ?_)
    rintro _ _ rfl
    have hadvance : Writes (if rest.isEmpty then pure () else advance s)
        (· = if rest.isEmpty then [] else [.advance s.strides.down]) := by
      cases rest
      · exact .pure rfl
      · exact writes_advance s
    refine unless_bind rest.isEmpty _ _ ▸ .bind hadvance ?_
    rintro _ _ rfl
    intro w b w' h
    obtain ⟨added, hadded, later, hlater, rfl⟩ := ih (y + 1) (!leftToRight) w b w' h
    have hempty : later.isEmpty = rest.isEmpty := by
      cases mapM_eq_ok_iff.mp hlater <;> rfl
    refine ⟨_, hadded, powers :: later, ?_, ?_⟩
    · rw [List.mapM_cons, hpowers, hlater]
      rfl
    · rw [scanLines, hempty]

omit [Checked α] in
theorem writes_footer : Writes (footer : Compiler α Unit) (· = footerLines) :=
  .emit_bind (.emit rfl)

/-- What the compiler does after it has started a new program. -/
def program : Compiler α Unit := do
  header s grid
  preamble s grid startX startY
  Compiler.rows s 0 true grid.rows
  footer

/-- Whatever was written before, the compiler starts from the blank workpiece. -/
theorem run_compile (w : Workpiece α) : (compile s grid startX startY).run.run w
    = (program s grid startX startY).run.run .blank := by
  rw [compile, run_bind, program]
  rfl

/-- The whole program follows a plan, from whatever workpiece it starts. -/
theorem writes_program : Writes (program s grid startX startY) fun added ↦
    ∃ p : Plan s grid startX startY, added = p.lines := by
  refine .bind (writes_header s grid) ?_
  rintro _ _ ⟨width, height, maxPower, feedRate, hwidth, hheight, hpower, hfeed, rfl⟩
  refine .bind (writes_preamble s grid startX startY) ?_
  rintro _ _ ⟨rate, left, top, hrate, hleft, htop, rfl⟩
  refine .bind (writes_rows s 0 true grid.rows) ?_
  rintro _ _ ⟨powers, hpowers, rfl⟩
  intro w b w' h
  obtain ⟨_, hadded, rfl⟩ := writes_footer w b w' h
  exact ⟨_, hadded, ⟨width, height, maxPower, feedRate, rate, left, top, powers, hwidth, hheight,
    hpower, hfeed, hrate, hleft, htop, hpowers⟩, rfl⟩

end Compiler

theorem exists_plan {s : Setting α} {grid : Grid} {startX startY : α} {w : Workpiece α}
    (h : compile? s grid startX startY = .ok w) :
    ∃ p : Plan s grid startX startY, w.lines.toList = p.lines := by
  rw [compile?, Compiler.run_compile] at h
  match hrun : (Compiler.program s grid startX startY).run.run .blank with
  | (.error _, _) =>
    rw [hrun] at h
    cases h
  | (.ok (), v) =>
    rw [hrun] at h
    cases h
    obtain ⟨added, hadded, p, rfl⟩ := Compiler.writes_program s grid startX startY .blank () w hrun
    exact ⟨p, hadded⟩

end Engraving
