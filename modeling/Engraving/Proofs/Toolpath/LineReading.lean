import Engraving.Toolpath.Reading
import Mathlib.Data.Int.Notation
import Mathlib.Data.List.Basic

/-!
# What a line says

The words of a line say all there is to know about the line: the first motion code among them is the
motion of the line, the last mode code is the mode it leaves behind, and the valid numbers for an
axis, in order, are what happens to that axis. The reader gathers these by folding over the words.
Here they are told as searches and filters of the list of words, and folding is shown to find the
same. The proofs about whole texts are then free of the folds.
-/

namespace Engraving

/-! ## Codes -/

/-- The words that are read from a line of a text, none where the line is passed over. -/
def readWords (raw : List Char) : List Word :=
  if isSkipped (trim raw) then [] else Word.ofLine (trim raw)

namespace Word

/-- The motion that the word asks for. -/
def motion? (w : Word) : Option Motion :=
  if w.letter = 'G' then w.code?.bind LineCodes.motionOf? else none

/-- The mode that the word switches to. -/
def positioning? (w : Word) : Option Positioning :=
  if w.letter = 'G' then
    if w.code? = some 90 then some .absolute
    else if w.code? = some 91 then some .relative
    else none
  else none

/-- Whether the word makes the coordinates of its line places of the machine. -/
def isMachine (w : Word) : Bool := w.letter = 'G' && w.code? = some 53

end Word

/-- The mode after some words: that of the last mode word, the one before if there is none. -/
def positioningAfter (before : Positioning) (words : List Word) : Positioning :=
  (words.filterMap Word.positioning?).getLast?.getD before

/-- The motion of a line: that of its first motion word. -/
def lineMotion? (raw : List Char) : Option Motion := (readWords raw).findSome? Word.motion?

theorem positioningAfter_append (before : Positioning) (first second : List Word) :
    positioningAfter before (first ++ second)
      = positioningAfter (positioningAfter before first) second := by
  rw [positioningAfter, positioningAfter, positioningAfter, List.filterMap_append,
    List.getLast?_append]
  cases (second.filterMap Word.positioning?).getLast? <;> rfl

theorem positioningAfter_cons (before : Positioning) (w : Word) (words : List Word) :
    positioningAfter before (w :: words)
      = positioningAfter (w.positioning?.getD before) words := by
  have hone : positioningAfter before [w] = w.positioning?.getD before := by
    rw [positioningAfter, List.filterMap_cons]
    cases w.positioning? <;> rfl
  rw [← hone, ← positioningAfter_append, List.singleton_append]

namespace LineCodes

theorem word_eq (c : LineCodes) (w : Word) :
    c.word w = ⟨w.positioning?.getD c.positioning, c.machine || w.isMachine,
      c.motion? <|> w.motion?⟩ := by
  rw [word, Word.positioning?, Word.isMachine, Word.motion?]
  by_cases hletter : w.letter = 'G'
  · rw [if_pos hletter, if_pos hletter, if_pos hletter, decide_eq_true hletter]
    cases hcode : w.code? with
    | none => simp
    | some n =>
      rw [Option.map_some, Option.getD_some, code]
      by_cases habsolute : n = 90
      · subst habsolute
        simp [motionOf?]
      · by_cases hrelative : n = 91
        · subst hrelative
          simp [motionOf?]
        · by_cases hmachine : n = 53
          · subst hmachine
            simp [motionOf?]
          · simp [habsolute, hrelative, hmachine]
  · simp [hletter]

theorem foldl_word (c : LineCodes) (words : List Word) :
    words.foldl word c = ⟨positioningAfter c.positioning words,
      c.machine || words.any Word.isMachine, c.motion? <|> words.findSome? Word.motion?⟩ := by
  induction words generalizing c with
  | nil => simp [positioningAfter]
  | cons w rest ih =>
    rw [List.foldl_cons, ih, word_eq, positioningAfter_cons, List.any_cons, Bool.or_assoc,
      List.findSome?_cons]
    cases c.motion? <;> cases w.motion? <;> rfl

/-- The codes of a line, found by searching its words. -/
theorem ofWords_eq (positioning : Positioning) (words : List Word) :
    ofWords positioning words = ⟨positioningAfter positioning words, words.any Word.isMachine,
      words.findSome? Word.motion?⟩ := by
  rw [ofWords, foldl_word, Bool.false_or]
  rfl

end LineCodes

/-! ## Coordinates -/

/-- The valid numbers that some words give for the axis with a letter. -/
def axisValues (letter : Char) (words : List Word) : List Float :=
  (words.filter (·.letter = letter)).filterMap Word.number?

/-- Where a coordinate ends: at the last value if values are places, and otherwise where adding one
value after the other leads. -/
def arrive (absolute : Bool) (old : Float) (values : List Float) : Float :=
  if absolute then values.getLast?.getD old else values.foldl (· + ·) old

@[simp] theorem arrive_nil (absolute : Bool) (old : Float) : arrive absolute old [] = old := by
  cases absolute <;> rfl

theorem arrive_cons (absolute : Bool) (old value : Float) (rest : List Float) :
    arrive absolute old (value :: rest)
      = arrive absolute (if absolute then value else old + value) rest := by
  cases absolute
  · rfl
  · rw [arrive, arrive, if_pos rfl, if_pos rfl, if_pos rfl, List.getLast?_cons]
    rfl

theorem axisValues_cons (letter : Char) (w : Word) (words : List Word) :
    axisValues letter (w :: words)
      = (if w.letter = letter then w.number?.toList else []) ++ axisValues letter words := by
  rw [axisValues, axisValues, List.filter_cons]
  by_cases hletter : w.letter = letter
  · rw [decide_eq_true hletter, if_pos rfl, if_pos hletter, List.filterMap_cons]
    cases w.number? <;> rfl
  · rw [decide_eq_false hletter, if_neg Bool.false_ne_true, if_neg hletter, List.nil_append]

namespace HeadPosition

theorem follow_eq (absolute : Bool) (p : HeadPosition) (words : List Word) :
    p.follow absolute words = ⟨arrive absolute p.x (axisValues 'X' words),
      arrive absolute p.y (axisValues 'Y' words), arrive absolute p.z (axisValues 'Z' words)⟩ := by
  induction words generalizing p with
  | nil => simp [follow, axisValues]
  | cons w rest ih =>
    have hfollow : p.follow absolute (w :: rest) = (p.word absolute w).follow absolute rest := rfl
    rw [hfollow, ih, word, axisValues_cons, axisValues_cons, axisValues_cons]
    cases w.number? with
    | none => simp
    | some value =>
      by_cases hx : w.letter = 'X'
      · simp [modify, hx, arrive_cons]
      · by_cases hy : w.letter = 'Y'
        · simp [modify, hy, arrive_cons]
        · by_cases hz : w.letter = 'Z'
          · simp [modify, hz, arrive_cons]
          · simp [modify, hx, hy, hz]

end HeadPosition

/-! ## Lines -/

/-- Whether the coordinates of a line are places, when the mode is `before` in front of it. The
whole line is read before the mode is looked at. -/
def isAbsoluteOn (before : Positioning) (raw : List Char) : Bool :=
  (readWords raw).any Word.isMachine || positioningAfter before (readWords raw) = .absolute

namespace HeadState

/-- Where a line takes the head, if it moves it. -/
def target (h : HeadState) (raw : List Char) : HeadPosition :=
  h.position.follow (isAbsoluteOn h.positioning raw) (readWords raw)

/-- A line does what its words do, and nothing without words. -/
theorem line_trim_eq_words (strict : Bool) (number : ℕ) (h : HeadState) (raw : List Char) :
    h.line strict number (trim raw) =
      match readWords raw with
      | [] => .ok (h, .blank)
      | words => h.words strict number words := by
  rw [line]
  by_cases hskip : isSkipped (trim raw) = true
  · have hwords : readWords raw = [] := if_pos hskip
    rw [hwords]
    exact if_pos hskip
  · have hwords : readWords raw = Word.ofLine (trim raw) := if_neg hskip
    rw [hwords]
    exact if_neg hskip

/-- What a line does to the head, in terms of what its words say. -/
theorem line_trim (strict : Bool) (number : ℕ) (h : HeadState) (raw : List Char) :
    h.line strict number (trim raw) =
      match lineMotion? raw with
      | none => .ok (⟨positioningAfter h.positioning (readWords raw), h.position⟩,
          if (readWords raw).isEmpty then .blank else .idle)
      | some motion =>
        match if strict then (readWords raw).find? Word.isBadCoordinate else none with
        | some word => .error (.badCoordinate number word)
        | none => .ok (⟨positioningAfter h.positioning (readWords raw), h.target raw⟩,
            .moved motion ⟨h.position.point, (h.target raw).point, motion = .rapid⟩) := by
  rw [line_trim_eq_words, target, isAbsoluteOn, lineMotion?]
  cases readWords raw with
  | nil => rfl
  | cons w rest =>
    dsimp only
    rw [words, LineCodes.ofWords_eq]
    cases (w :: rest).findSome? Word.motion? with
    | none => rfl
    | some motion => rfl

end HeadState

end Engraving
