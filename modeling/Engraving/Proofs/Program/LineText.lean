import Engraving.Proofs.Number.NumberText
import Engraving.Proofs.Program.Strides
import Engraving.Proofs.Text.Lines
import Engraving.Text.Character

/-!
# The characters of program lines

What can be told from the characters of a program: where its lines end, which of them are remarks,
and that no remark holds a command.
-/

namespace Engraving

/-! ## The text of a program and its lines

No line of a program holds a line end, whatever numbers are written on it. So the text of a program
has just the lines that were written, and its first characters tell a remark from a command.
-/

def IsOneLine (text : List Char) : Prop := ∀ c ∈ text, isLineEnd c = false

instance : DecidablePred IsOneLine := fun text ↦
  inferInstanceAs (Decidable (∀ c ∈ text, isLineEnd c = false))

theorem IsOneLine.append {first second : List Char} (h₁ : IsOneLine first)
    (h₂ : IsOneLine second) : IsOneLine (first ++ second) :=
  List.forall_mem_append.mpr ⟨h₁, h₂⟩

theorem IsNumberText.isOneLine {text : List Char} (h : IsNumberText text) : IsOneLine text := by
  intro c hc
  have hchar := h c hc
  rw [isNumberChar, Bool.or_eq_true] at hchar
  rcases hchar with hdigit | hletter
  · obtain ⟨hlow, hhigh⟩ := toNat_of_isNumeral (isNumeral_of_isDigit hdigit)
    simp only [isLineEnd, Bool.or_eq_false_iff, Bool.and_eq_false_iff, decide_eq_false_iff_not]
    omega
  · have hall : ∀ d ∈ ['+', '-', '.', 'a', 'e', 'f', 'i', 'n'], isLineEnd d = false := by decide
    exact hall c (List.contains_iff_mem.mp hletter)

namespace ProgramLine

theorem isOneLine_text {line : ProgramLine}
    (hcomment : ∀ remark, line = .comment remark → IsOneLine remark.toList) :
    IsOneLine line.text.toList := by
  cases line with
  | comment remark =>
    rw [text, String.toList_append]
    exact .append (by decide) (hcomment remark rfl)
  | feedRate rate =>
    rw [text, String.toList_append, String.toList_append]
    exact .append (.append (by decide) (isNumberText_intCast rate).isOneLine) (by decide)
  | place x y =>
    simp only [text, String.toList_append]
    exact .append (.append (.append (.append (by decide) x.isNumberText.isOneLine) (by decide))
      y.isNumberText.isOneLine) (by decide)
  | burn delta power =>
    simp only [text, String.toList_append]
    exact .append (.append (.append (by decide) delta.isNumberText.isOneLine) (by decide))
      (isNumberText_intCast power).isOneLine
  | advance delta =>
    rw [text, String.toList_append]
    exact .append (by decide) delta.isNumberText.isOneLine
  | _ => decide

end ProgramLine

/-! ### The lines of a plan -/

/-- The fixed words of the remarks of a program. -/
def remarkWords : List String :=
  ["Raster engraving program", "Image size: ", "x", " pixels", "Physical size: ", "mm x ", "mm",
    "Max power: ", "%, feed rate: ", "mm/min", "Row "]

namespace Plan

variable {s : Setting Quantity} {grid : Grid} {startX startY : Quantity}
  (p : Plan s grid startX startY)

/-- The remarks of a program are the four at its head and those that count its rows. -/
theorem remark_cases {remark : String} (h : ProgramLine.comment remark ∈ p.lines) :
    ProgramLine.comment remark ∈ headerLines grid p.width p.height p.maxPower p.feedRate ∨
      ∃ y : ℕ, remark = "Row " ++ toString y := by
  cases isLine_of_mem_lines h with
  | header h => exact Or.inl h
  | mode h => simp at h
  | scan h =>
    cases h with
    | comment y => exact Or.inr ⟨y, rfl⟩

/-- What holds of numbers and of the fixed words of remarks holds of the remarks of a program, if it
holds of texts that are put together. -/
theorem remark_induction {P : List Char → Prop}
    (happend : ∀ {first second}, P first → P second → P (first ++ second))
    (hnumber : ∀ {text}, IsNumberText text → P text) (hwords : ∀ word ∈ remarkWords, P word.toList)
    {remark : String} (h : ProgramLine.comment remark ∈ p.lines) : P remark.toList := by
  rcases p.remark_cases h with h | ⟨y, rfl⟩
  · have hpower := hnumber (Quantity.isNumberText p.maxPower_eq)
    have hfeed := hnumber (Quantity.isNumberText p.feedRate_eq)
    have hcolumns := hnumber (isNumberText_intCast grid.width)
    have hrows := hnumber (isNumberText_natCast grid.height)
    have hwidth := hnumber p.width.isNumberText
    have hheight := hnumber p.height.isNumberText
    simp only [headerLines, List.mem_cons, List.not_mem_nil, or_false, ProgramLine.comment.injEq]
      at h
    rcases h with rfl | rfl | rfl | rfl
    · exact hwords _ (by decide)
    · simp only [String.toList_append]
      exact happend (happend (happend (happend (hwords _ (by decide)) hcolumns)
        (hwords _ (by decide))) hrows) (hwords _ (by decide))
    · simp only [String.toList_append]
      exact happend (happend (happend (happend (hwords _ (by decide)) hwidth)
        (hwords _ (by decide))) hheight) (hwords _ (by decide))
    · simp only [String.toList_append]
      exact happend (happend (happend (happend (hwords _ (by decide)) hpower)
        (hwords _ (by decide))) hfeed) (hwords _ (by decide))
  · rw [String.toList_append]
    exact happend (hwords _ (by decide)) (hnumber (isNumberText_natCast y))

theorem isOneLine_remark {remark : String} (h : ProgramLine.comment remark ∈ p.lines) :
    IsOneLine remark.toList :=
  p.remark_induction .append (·.isOneLine) (by decide) h

theorem isOneLine_text {line : ProgramLine} (h : line ∈ p.lines) : IsOneLine line.text.toList :=
  ProgramLine.isOneLine_text fun _ hremark ↦ p.isOneLine_remark (hremark ▸ h)

end Plan

/-- The text of a program has the lines that were written. -/
theorem lines_programText_texts {s : Setting Quantity} {grid : Grid} {startX startY : Quantity}
    {w : Workpiece Quantity} (h : compile? s grid startX startY = .ok w) :
    lines (programText w.texts).toList = w.texts.map String.toList := by
  obtain ⟨p, hlines⟩ := exists_plan h
  rw [Workpiece.texts, hlines]
  refine lines_programText ?_ fun text htext ↦ ?_
  · simp [Plan.lines, headerLines]
  · obtain ⟨line, hline, rfl⟩ := List.mem_map.mp htext
    exact p.isOneLine_text hline

/-! ## Marks on a line

A command letter with a digit right behind it is a command, or the power of the beam, wherever on a
line it stands. The marks on a line of a program are few and known, for neither written numbers nor
remarks bring any: that is what rules out a command in a remark that is put together from arbitrary
settings.
-/

/-- A letter of the commands that move the head, drive the laser or give its power. -/
def isCommandLetter (c : Char) : Bool := ['G', 'M', 'S'].contains c

/-- The marks in a text: a command letter and the digit right behind it. -/
def marks : List Char → List (Char × Char)
  | a :: b :: rest =>
    if isCommandLetter a && isDigit b then (a, b) :: marks (b :: rest) else marks (b :: rest)
  | _ => []

/-- The text stands somewhere on the line. -/
def Mentions (text : String) (line : List Char) : Prop := text.toList <:+: line

instance (text : String) : DecidablePred (Mentions text) := fun line ↦
  inferInstanceAs (Decidable (text.toList <:+: line))

/-! ### Marks of texts that are put together -/

theorem marks_append_cons (first : List Char) (c : Char) (rest : List Char) :
    marks (first ++ c :: rest) = marks (first ++ [c]) ++ marks (c :: rest) := by
  induction first with
  | nil => rfl
  | cons a first ih =>
    match first with
    | [] =>
      simp only [List.cons_append, List.nil_append, marks]
      split <;> rfl
    | b :: first =>
      simp only [List.cons_append, marks] at ih ⊢
      rw [ih]
      split <;> rfl

theorem mem_marks_of_infix {a b : Char} {text : List Char} (ha : isCommandLetter a = true)
    (hb : isDigit b = true) (h : [a, b] <:+: text) : (a, b) ∈ marks text := by
  obtain ⟨first, rest, rfl⟩ := h
  rw [List.append_assoc, List.cons_append, marks_append_cons, List.mem_append]
  refine Or.inr ?_
  simp only [List.cons_append, marks, ha, hb, Bool.and_self, if_true]
  exact List.mem_cons_self

theorem mem_marks_of_mentions {a b : Char} {command : String} {rest : List Char} {line : List Char}
    (hcommand : command.toList = a :: b :: rest) (ha : isCommandLetter a = true)
    (hb : isDigit b = true) (h : Mentions command line) : (a, b) ∈ marks line := by
  refine mem_marks_of_infix ha hb (List.IsInfix.trans ?_ h)
  rw [hcommand]
  exact (List.prefix_append [a, b] rest).isInfix

theorem marks_append {first : List Char} (h : ∀ c ∈ first.getLast?, isCommandLetter c = false)
    (second : List Char) : marks (first ++ second) = marks first ++ marks second := by
  match second with
  | [] => rw [List.append_nil, show marks [] = [] from rfl, List.append_nil]
  | d :: second =>
    rw [marks_append_cons]
    rcases List.eq_nil_or_concat' first with rfl | ⟨front, c, rfl⟩
    · rfl
    · have hc : isCommandLetter c = false := h c (by rw [List.getLast?_concat]; rfl)
      rw [List.append_assoc, List.singleton_append, marks_append_cons front c [d]]
      simp [marks, hc]

/-- The text brings no marks, whatever is written behind it. -/
def IsQuiet (text : List Char) : Prop := ∀ rest, marks (text ++ rest) = marks rest

namespace IsQuiet

variable {text : List Char}

theorem marks_append (h : IsQuiet text) (rest : List Char) : marks (text ++ rest) = marks rest :=
  h rest

theorem marks_eq_nil (h : IsQuiet text) : marks text = [] := by
  have happend := h []
  rwa [List.append_nil] at happend

theorem append {first second : List Char} (h₁ : IsQuiet first) (h₂ : IsQuiet second) :
    IsQuiet (first ++ second) := by
  intro rest
  rw [List.append_assoc, h₁.marks_append, h₂.marks_append]

theorem of_forall (h : ∀ c ∈ text, isCommandLetter c = false) : IsQuiet text := by
  intro rest
  induction text with
  | nil => rfl
  | cons a text ih =>
    have ha := h a List.mem_cons_self
    rw [← ih fun c hc ↦ h c (List.mem_cons_of_mem _ hc), List.cons_append]
    match htail : text ++ rest with
    | [] => rfl
    | b :: tail =>
      rw [marks, ha, Bool.false_and, if_neg Bool.false_ne_true]

/-- A text may hold command letters and be quiet, if it does not end in one. -/
theorem of_marks_eq_nil (h : marks text = []) (hlast : ∀ c ∈ text.getLast?,
    isCommandLetter c = false) : IsQuiet text := by
  intro rest
  rw [Engraving.marks_append hlast, h, List.nil_append]

end IsQuiet

theorem IsNumberText.forall_not_isCommandLetter {text : List Char} (h : IsNumberText text) :
    ∀ c ∈ text, isCommandLetter c = false := by
  intro c hc
  refine Bool.eq_false_of_not_eq_true fun hletter ↦ ?_
  have hall : ∀ d ∈ ['G', 'M', 'S'], isNumberChar d = false := by decide
  have hchar := h c hc
  rw [hall c (List.contains_iff_mem.mp hletter)] at hchar
  cases hchar

theorem IsNumberText.isQuiet {text : List Char} (h : IsNumberText text) : IsQuiet text :=
  .of_forall h.forall_not_isCommandLetter

/-- A command letter that no other follows makes at most one mark. -/
theorem mem_marks_cons {a : Char} {rest : List Char} (h : ∀ c ∈ rest, isCommandLetter c = false)
    {mark : Char × Char} (hmem : mark ∈ marks (a :: rest)) : mark.1 = a := by
  match rest with
  | [] => cases hmem
  | b :: rest =>
    rw [marks] at hmem
    split at hmem
    · rcases List.mem_cons.mp hmem with rfl | htail
      · rfl
      · rw [(IsQuiet.of_forall h).marks_eq_nil] at htail
        cases htail
    · rw [(IsQuiet.of_forall h).marks_eq_nil] at hmem
      cases hmem

/-! ### Marks of program lines -/

namespace ProgramLine

/-- The marks on a line of a program, its power apart. -/
def marks : ProgramLine → List (Char × Char)
  | comment _ | feedRate _ => []
  | millimetres => [('G', '2')]
  | absolute | relative | restoreAbsolute => [('G', '9')]
  | place _ _ => [('G', '5'), ('G', '0')]
  | laserOn => [('M', '4')]
  | burn _ _ | advance _ => [('G', '1')]
  | laserOff => [('M', '5')]

/-- A burnt line has the mark of a move and at most a power besides. -/
theorem marks_text_burn (delta : FixedPoint 3) {power : List Char}
    (h : ∀ c ∈ power, isCommandLetter c = false) {mark : Char × Char}
    (hmem : mark ∈ Engraving.marks (("G1 X" ++ delta.text ++ "S").toList ++ power)) :
    mark = ('G', '1') ∨ mark.1 = 'S' := by
  simp only [String.toList_append, List.append_assoc] at hmem
  rw [Engraving.marks_append (by decide), delta.isNumberText.isQuiet.marks_append] at hmem
  rcases List.mem_append.mp hmem with hmove | hpower
  · exact Or.inl (List.mem_singleton.mp hmove)
  · exact Or.inr (mem_marks_cons h hpower)

/-- The marks on a written line are the marks of the line, as long as a remark brings none. -/
theorem mem_marks_text {line : ProgramLine}
    (hcomment : ∀ remark, line = .comment remark → IsQuiet remark.toList)
    {mark : Char × Char} (h : mark ∈ Engraving.marks line.text.toList) :
    mark ∈ line.marks ∨ mark.1 = 'S' ∧ ∃ delta power, line = .burn delta power := by
  cases line with
  | comment remark =>
    have hquiet : IsQuiet ("; ".toList ++ remark.toList) :=
      .append (.of_forall (by decide)) (hcomment remark rfl)
    rw [text, String.toList_append, hquiet.marks_eq_nil] at h
    cases h
  | feedRate rate =>
    rw [text, String.toList_append, String.toList_append, List.append_assoc,
      Engraving.marks_append (by decide), (isNumberText_intCast rate).isQuiet.marks_append] at h
    cases h
  | place x y =>
    simp only [text, String.toList_append, List.append_assoc] at h
    rw [Engraving.marks_append (by decide), x.isNumberText.isQuiet.marks_append,
      (IsQuiet.of_forall (by decide)).marks_append, y.isNumberText.isQuiet.marks_append] at h
    exact Or.inl h
  | burn delta power =>
    rw [text, String.toList_append] at h
    have hquiet := (isNumberText_intCast power).forall_not_isCommandLetter
    rcases marks_text_burn delta hquiet h with rfl | hpower
    · exact Or.inl List.mem_cons_self
    · exact Or.inr ⟨hpower, delta, power, rfl⟩
  | advance delta =>
    rw [text, String.toList_append, Engraving.marks_append (by decide),
      delta.isNumberText.isQuiet.marks_eq_nil] at h
    exact Or.inl h
  | _ => exact Or.inl h

end ProgramLine

/-- A remark of a program is quiet, whatever numbers are written into it. -/
theorem Plan.isQuiet_remark {s : Setting Quantity} {grid : Grid} {startX startY : Quantity}
    (p : Plan s grid startX startY) {remark : String}
    (h : ProgramLine.comment remark ∈ p.lines) : IsQuiet remark.toList := by
  have hwords : ∀ word ∈ remarkWords, marks word.toList = [] ∧
      ∀ c ∈ word.toList.getLast?, isCommandLetter c = false := by decide
  refine p.remark_induction .append (·.isQuiet) (fun word hword ↦ ?_) h
  exact .of_marks_eq_nil (hwords word hword).1 (hwords word hword).2

end Engraving
