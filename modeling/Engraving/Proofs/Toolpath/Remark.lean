import Engraving.Proofs.Toolpath.Invariant
import Engraving.Proofs.Toolpath.Layout
import Engraving.Proofs.Toolpath.Strictness

/-!
# Remarks among the words

A remark in parentheses counts as a blank wherever code stands in front of it: the line keeps its
words and does what it did without the remark. But a line that begins with a parenthesis is passed
over as a whole, so a remark in front of the first word takes the code behind it away. The two lines
can then stand for each other only if that code neither moves the head nor sets the mode; that this
is not only enough but needed is shown by programs around the line which tell the two apart.
-/

namespace Engraving

/-- A text in which no comment begins. -/
def IsBare (text : List Char) : Prop := ∀ c ∈ text, c ≠ ';' ∧ c ≠ '('

instance (text : List Char) : Decidable (IsBare text) :=
  inferInstanceAs (Decidable (∀ c ∈ text, c ≠ ';' ∧ c ≠ '('))

/-- A line and the same line with a remark in it, behind the runs `front` and before the runs
`back`. The blanks may be others. -/
structure IsRemarked (front back : List (List Char)) (raw remarked : List Char) : Prop where
  bare : IsBare raw
  runs : blankFree raw = front ++ back
  exists_eq : ∃ before remark after, IsBare before ∧ IsBare after ∧ blankFree before = front ∧
    blankFree after = back ∧ (∀ c ∈ remark, c ≠ ')' ∧ c ≠ ';') ∧
    remarked = before ++ '(' :: (remark ++ ')' :: after)
  isLineEnd : ∀ c ∈ raw ++ remarked, isLineEnd c = false

/-! ## Words beside a remark -/

namespace Word

theorem ofText_append_cons {b : Char} (hb : isBlank b = true) (first rest : List Char) :
    ofText (first ++ b :: rest) = ofText first ++ ofText rest := by
  rw [ofText, upperCase_append, upperCase, upperCase, List.flatMap_cons, upperCaseOf_of_isBlank hb,
    List.singleton_append, ofCode, blankFree_append_cons hb, List.flatMap_append]
  rfl

theorem ofText_eq_flatMap (text : List Char) : ofText text = (blankFree text).flatMap ofText := by
  -- The induction is on the text that is left; the run that is being read stands in front of it.
  have hfrom (run : List Char) :
      ofText (run.reverse ++ text) = (blankFreeFrom run text).flatMap ofText := by
    induction text generalizing run with
    | nil =>
      rw [blankFreeFrom, List.append_nil]
      split
      · next hnone =>
        rw [List.isEmpty_iff.mp hnone]
        rfl
      · rw [List.flatMap_singleton]
    | cons c rest ih =>
      rw [blankFreeFrom]
      split
      · next hc =>
        have hrest : ofText rest = (blankFreeFrom [] rest).flatMap ofText := ih []
        rw [ofText_append_cons hc, hrest]
        split
        · next hnone =>
          rw [List.isEmpty_iff.mp hnone]
          rfl
        · rw [List.flatMap_cons]
      · rw [← ih, List.reverse_cons, List.append_assoc, List.singleton_append]
  exact hfrom []

theorem ofText_congr {text text' : List Char} (h : blankFree text = blankFree text') :
    ofText text = ofText text' := by
  rw [ofText_eq_flatMap, h, ← ofText_eq_flatMap]

theorem ofLine_of_isBare {text : List Char} (h : IsBare text) : ofLine text = ofText text := by
  rw [ofLine, ← List.append_nil text, stripComments_append_remark h (by rintro c ⟨⟩),
    List.append_nil]

theorem ofLine_append_remark {before remark : List Char} (h : IsBare before)
    (hremark : ∀ c ∈ remark, c ≠ ')' ∧ c ≠ ';') (after : List Char) :
    ofLine (before ++ '(' :: (remark ++ ')' :: after)) = ofText before ++ ofLine after := by
  rw [ofLine, stripComments_append h, stripComments_cons_remark hremark,
    ofText_append_cons (by decide), ofLine]

theorem ofLine_cons_of_open {text : List Char}
    (h : ∀ remark rest, (∀ c ∈ remark, c ≠ ')' ∧ c ≠ ';') → text ≠ remark ++ ')' :: rest) :
    ofLine ('(' :: text) = [] := by
  have hopen : ∀ c ∈ text.takeWhile (· ≠ ';'), decide (c ≠ ')') = true := by
    intro c hc
    rw [decide_eq_true_iff]
    rintro rfl
    obtain ⟨remark, rest, hsplit, hremark⟩ := List.eq_append_cons_of_mem hc
    have hkept : ∀ d ∈ remark, d ≠ ')' ∧ d ≠ ';' := by
      intro d hd
      have hmem : d ∈ text.takeWhile (· ≠ ';') := hsplit ▸ List.mem_append_left _ hd
      have hsemicolon := List.mem_takeWhile_imp hmem
      exact ⟨fun heq ↦ hremark (heq ▸ hd), of_decide_eq_true hsemicolon⟩
    refine h remark (rest ++ text.dropWhile (· ≠ ';')) hkept ?_
    rw [← List.cons_append, ← List.append_assoc, ← hsplit, List.takeWhile_append_dropWhile]
  rw [ofLine, stripComments, List.takeWhile_cons_of_pos (by decide), blankComments, if_pos rfl,
    afterComment, List.dropWhile_eq_nil_iff.mpr hopen]
  rw [List.drop_nil, blankComments]
  decide

end Word

/-! ## Lines that are passed over -/

/-- A line that is not passed over is read for its words, and so is one that holds none. -/
theorem readWords_eq_ofLine_iff {raw : List Char} :
    readWords raw = Word.ofLine (trim raw) ↔
      ∀ remark rest, (∀ c ∈ remark, c ≠ ')' ∧ c ≠ ';') →
        trim raw = '(' :: (remark ++ ')' :: rest) → Word.ofLine rest = [] := by
  have hrest {remark rest : List Char} (hremark : ∀ c ∈ remark, c ≠ ')' ∧ c ≠ ';') :
      Word.ofLine ('(' :: (remark ++ ')' :: rest)) = Word.ofLine rest :=
    Word.ofLine_append_remark (List.forall_mem_nil _) hremark rest
  constructor
  · intro hread remark rest hremark htrim
    have hskip : isSkipped (trim raw) = true := by
      rw [htrim]
      rfl
    rw [readWords, if_pos hskip, htrim, hrest hremark] at hread
    exact hread.symm
  · intro h
    rw [readWords]
    split
    · next hskip =>
      rcases htrim : trim raw with _ | ⟨c, text⟩
      · decide +kernel
      rw [htrim, isSkipped, Bool.or_eq_true, decide_eq_true_iff, decide_eq_true_iff] at hskip
      rcases hskip with rfl | rfl
      · rw [Word.ofLine, ← List.nil_append (';' :: text),
          Word.stripComments_append_remark (List.forall_mem_nil _) (by rintro c ⟨⟩; rfl)]
        rfl
      -- Only a comment that is closed leaves something of the line.
      · by_cases hopen : ∀ remark rest, (∀ c ∈ remark, c ≠ ')' ∧ c ≠ ';') →
            text ≠ remark ++ ')' :: rest
        · rw [Word.ofLine_cons_of_open hopen]
        · push Not at hopen
          obtain ⟨remark, rest, hremark, rfl⟩ := hopen
          rw [hrest hremark, h remark rest hremark htrim]
    · rfl

/-! ## The words of a line with a remark -/

theorem IsBare.subset {text text' : List Char} (h : IsBare text) (hsub : text' ⊆ text) :
    IsBare text' := fun c hc ↦ h c (hsub hc)

theorem trimStart_subset (text : List Char) : trimStart text ⊆ text :=
  (List.dropWhile_suffix isBlank).subset

theorem trimEnd_subset (text : List Char) : trimEnd text ⊆ text := by
  intro c hc
  have hreverse := (List.dropWhile_suffix isBlank).subset (List.mem_reverse.mp hc)
  exact List.mem_reverse.mp hreverse

theorem isSkipped_append {code : List Char} (h : IsBare code) (hne : code ≠ [])
    (rest : List Char) : isSkipped (code ++ rest) = false := by
  obtain ⟨c, code, rfl⟩ := List.exists_cons_of_ne_nil hne
  obtain ⟨hsemicolon, hparenthesis⟩ := h c List.mem_cons_self
  rw [List.cons_append, isSkipped, decide_eq_false hsemicolon, decide_eq_false hparenthesis]
  rfl

theorem readWords_of_isBare {raw : List Char} (h : IsBare raw) :
    readWords raw = (blankFree raw).flatMap Word.ofText := by
  have htrim : IsBare (trim raw) :=
    (h.subset (trimStart_subset raw)).subset (trimEnd_subset _)
  have hread : readWords raw = Word.ofLine (trim raw) := by
    rw [readWords_eq_ofLine_iff]
    intro remark rest _ hparenthesis
    rw [hparenthesis] at htrim
    exact absurd rfl (htrim '(' List.mem_cons_self).2
  rw [hread, Word.ofLine_of_isBare htrim, Word.ofText_eq_flatMap, trim, blankFree_trimEnd,
    blankFree_trimStart]

namespace IsRemarked

variable {front back : List (List Char)} {raw remarked : List Char}

theorem readWords_raw (h : IsRemarked front back raw remarked) :
    readWords raw = (front ++ back).flatMap Word.ofText := by
  rw [readWords_of_isBare h.bare, h.runs]

theorem readWords_remarked (h : IsRemarked front back raw remarked) (hfront : front ≠ []) :
    readWords remarked = (front ++ back).flatMap Word.ofText := by
  obtain ⟨before, remark, after, hbefore, hafter, rfl, rfl, hremark, rfl⟩ := h.exists_eq
  have hne : trimStart before ≠ [] := mt blankFree_eq_nil_iff.mpr hfront
  have hcode : IsBare (trimStart before) := hbefore.subset (trimStart_subset before)
  rw [readWords, trim_append_cons (by decide), isSkipped_append hcode hne,
    if_neg Bool.false_ne_true, trimEnd_append_cons (by decide),
    Word.ofLine_append_remark hcode hremark,
    Word.ofLine_of_isBare (hafter.subset (trimEnd_subset after)),
    Word.ofText_congr (blankFree_trimStart before), Word.ofText_congr (blankFree_trimEnd after),
    Word.ofText_eq_flatMap before, Word.ofText_eq_flatMap after, List.flatMap_append]

/-- In front of all code the remark takes every word away. -/
theorem readWords_remarked_eq_nil (h : IsRemarked [] back raw remarked) :
    readWords remarked = [] := by
  obtain ⟨before, remark, after, -, -, hbefore, -, -, rfl⟩ := h.exists_eq
  -- Only blanks stand in front of the parenthesis, so it is what the line begins with.
  rw [readWords, trim_append_cons (by decide), blankFree_eq_nil_iff.mp hbefore]
  rfl

end IsRemarked

/-! ## Lines that stand for each other -/

namespace Toolpath

/-- Two lines that can stand for each other in every program, read strictly or not: the outline is
the same, or reading fails in the same way. -/
def IsInterchangeable (raw raw' : List Char) : Prop :=
  ∀ (strict : Bool) (earlier later : List (List Char)) (text text' : List Char),
    lines text = earlier ++ raw :: later → lines text' = earlier ++ raw' :: later →
    (ofText? strict text).map outline = (ofText? strict text').map outline

variable {raw raw' : List Char}

theorem PathAlike.isInterchangeable (h : PathAlike raw raw') : IsInterchangeable raw raw' := by
  intro strict earlier later text text' htext htext'
  have hsame (read : List (List Char)) : List.Forall₂ PathAlike read read :=
    List.forall₂_same.mpr fun r _ ↦ .refl r
  refine map_outline_ofText?_eq_of_pathAlike strict ?_
  rw [htext, htext']
  exact List.rel_append (hsame earlier) (.cons h (hsame later))

theorem readAlike_of_readWords_eq (h : readWords raw = readWords raw') : ReadAlike raw raw' := by
  intro strict number s
  rw [HeadState.line_trim_eq_words, HeadState.line_trim_eq_words, h]

/-- Words that ask for nothing leave the path and the state as they are. -/
theorem map_line_of_forall_none
    (h : ∀ w ∈ readWords raw, w.motion? = none ∧ w.positioning? = none) (strict : Bool)
    (t : Toolpath) :
    (t.line strict raw).map withoutIdle
      = .ok { t.withoutIdle with lineCount := t.withoutIdle.lineCount + 1 } := by
  have hmotion : lineMotion? raw = none :=
    List.findSome?_eq_none_iff.mpr fun w hw ↦ (h w hw).1
  have hmode (before : Positioning) : positioningAfter before (readWords raw) = before := by
    rw [positioningAfter, List.filterMap_eq_nil_iff.mpr fun w hw ↦ (h w hw).2]
    rfl
  rw [line, HeadState.line_trim, hmotion, hmode]
  change Except.ok (withoutIdle (t.outcome (trim raw) t.state _)) = _
  split <;> rfl

theorem pathAlike_of_forall_none
    (h : ∀ w ∈ readWords raw, w.motion? = none ∧ w.positioning? = none)
    (h' : ∀ w ∈ readWords raw', w.motion? = none ∧ w.positioning? = none) :
    PathAlike raw raw' := by
  intro strict t t' ht
  rw [map_line_of_forall_none h, map_line_of_forall_none h', ht]

/-! ## Programs that tell lines apart -/

def modeLine : Positioning → List Char
  | .absolute => "G90".toList
  | .relative => "G91".toList

theorem positioningAfter_modeLine (before mode : Positioning) :
    positioningAfter before (readWords (modeLine mode)) = mode := by
  cases before <;> cases mode <;> decide +kernel

/-- A move that goes twice as far in relative mode. -/
def probeLine : List Char := "G1X1X1".toList

def probePlace : Positioning → Float
  | .absolute => 1
  | .relative => 0 + 1 + 1

theorem probePlace_injective : Function.Injective probePlace := by
  intro mode mode' h
  have hdistinct : (1 : Float) ≠ 0 + 1 + 1 := by decide +kernel
  match mode, mode' with
  | .absolute, .absolute | .relative, .relative => rfl
  | .absolute, .relative => exact absurd h hdistinct
  | .relative, .absolute => exact absurd h.symm hdistinct

/-- Behind lines that move nothing the move tells which mode they have left. -/
theorem segments_probeLine {read : List (List Char)} (h : ∀ r ∈ read, lineMotion? r = none)
    {t : Toolpath} (ht : ofLines? false (read ++ [probeLine]) = .ok t) :
    t.segments = [⟨⟨0, 0⟩,
      ⟨probePlace (positioningAfter .absolute (read.flatMap readWords)), 0⟩, false⟩] := by
  obtain ⟨u, hu, hstep⟩ := exists_step_of_ofLines?_concat ht
  have htraces := traces_of_ofLines? hu
  have hnone : u.segments = [] := by
    have hrapid := htraces.rapid
    rw [List.filterMap_eq_nil_iff.mpr h] at hrapid
    exact List.map_eq_nil_iff.mp hrapid
  have hpoint : u.state.position.point = ⟨0, 0⟩ := by
    have hpath := htraces.path
    rw [hnone] at hpath
    exact hpath.symm
  obtain ⟨hposition, hsegments, -⟩ := hstep.moved .feed (by decide +kernel)
  have hvalues : axisValues 'X' (readWords probeLine) = [1, 1] ∧
      axisValues 'Y' (readWords probeLine) = [] := by decide +kernel
  have harrive (mode : Positioning) :
      arrive (isAbsoluteOn mode probeLine) 0 [1, 1] = probePlace mode := by
    cases mode <;> decide +kernel
  have hx : u.state.position.x = 0 := congrArg Point.x hpoint
  have hy : u.state.position.y = 0 := congrArg Point.y hpoint
  have hfinish : t.state.position.point
      = ⟨probePlace (positioningAfter .absolute (read.flatMap readWords)), 0⟩ := by
    rw [HeadPosition.point, hposition, hvalues.1, hvalues.2, arrive_nil, hx, hy, harrive,
      htraces.positioning]
  rw [hsegments, hnone, hpoint, hfinish]
  rfl

namespace IsInterchangeable

variable (h : IsInterchangeable raw raw') (hends : ∀ c ∈ raw ++ raw', isLineEnd c = false)

include h hends

theorem exists_segments_eq {earlier later : List (List Char)}
    (haround : ∀ r ∈ earlier ++ later, ∀ c ∈ r, isLineEnd c = false) :
    ∃ t t', ofLines? false (earlier ++ raw :: later) = .ok t ∧
      ofLines? false (earlier ++ raw' :: later) = .ok t' ∧ t.segments = t'.segments := by
  have hlines {r : List Char} (hr : ∀ c ∈ r, isLineEnd c = false) :
      lines ((earlier ++ r :: later).flatMap (· ++ ['\n'])) = earlier ++ r :: later := by
    refine lines_flatMap_lineFeed fun s hs ↦ ?_
    rcases List.mem_append.mp hs with hs | hs
    · exact haround s (List.mem_append_left _ hs)
    · rcases List.mem_cons.mp hs with rfl | hs
      · exact hr
      · exact haround s (List.mem_append_right _ hs)
  have htext := hlines fun c hc ↦ hends c (List.mem_append_left _ hc)
  have htext' := hlines fun c hc ↦ hends c (List.mem_append_right _ hc)
  obtain ⟨t, ht⟩ := exists_ofText?_false ((earlier ++ raw :: later).flatMap (· ++ ['\n']))
  obtain ⟨t', ht'⟩ := exists_ofText?_false ((earlier ++ raw' :: later).flatMap (· ++ ['\n']))
  -- Lenient reading never fails, so that there are two outlines to compare.
  have hsame := h false earlier later _ _ htext htext'
  rw [ht, ht'] at hsame
  rw [ofText?, htext] at ht
  rw [ofText?, htext'] at ht'
  exact ⟨t, t', ht, ht', congrArg Prod.fst (Except.ok.inj hsame)⟩

/-- The two lines alone tell whether one moves the head where the other does not. -/
theorem lineMotion?_eq_none (hnone : lineMotion? raw' = none) : lineMotion? raw = none := by
  have haround : ∀ r ∈ ([] ++ [] : List (List Char)), ∀ c ∈ r, isLineEnd c = false :=
    List.forall_mem_nil _
  obtain ⟨t, t', ht, ht', hsegments⟩ := h.exists_segments_eq hends haround
  have hrapid := (traces_of_ofLines? ht).rapid
  rw [hsegments, (traces_of_ofLines? ht').rapid, List.nil_append, List.nil_append,
    List.filterMap_cons_none hnone] at hrapid
  match hraw : lineMotion? raw with
  | none => rfl
  | some motion =>
    rw [List.filterMap_cons_some hraw] at hrapid
    cases hrapid

/-- A mode in front of the lines and the move behind them tell whether one sets the mode. -/
theorem positioningAfter_eq (hnone : lineMotion? raw' = none) (mode : Positioning) :
    positioningAfter mode (readWords raw) = positioningAfter mode (readWords raw') := by
  have hmotion := h.lineMotion?_eq_none hends hnone
  have hmode : lineMotion? (modeLine mode) = none := by cases mode <;> decide +kernel
  have haround : ∀ r ∈ [modeLine mode] ++ [probeLine], ∀ c ∈ r, isLineEnd c = false := by
    cases mode <;> decide
  obtain ⟨t, t', ht, ht', hsegments⟩ := h.exists_segments_eq hends haround
  have hplace {r : List Char} (hr : lineMotion? r = none) {u : Toolpath}
      (hu : ofLines? false ([modeLine mode] ++ [r, probeLine]) = .ok u) :
      u.segments = [⟨⟨0, 0⟩, ⟨probePlace (positioningAfter mode (readWords r)), 0⟩, false⟩] := by
    have hread : ∀ s ∈ [modeLine mode, r], lineMotion? s = none :=
      List.forall_mem_cons.mpr ⟨hmode, List.forall_mem_singleton.mpr hr⟩
    rw [segments_probeLine hread hu, List.flatMap_cons, List.flatMap_singleton,
      positioningAfter_append, positioningAfter_modeLine]
  rw [hplace hmotion ht, hplace hnone ht'] at hsegments
  simp only [List.cons.injEq, Segment.mk.injEq, Point.mk.injEq, and_true, true_and] at hsegments
  exact probePlace_injective hsegments

end IsInterchangeable

/-- A line without words can stand for a line exactly when no word of that line moves the head or
sets the mode. -/
theorem isInterchangeable_iff_of_readWords_eq_nil (hnil : readWords raw' = [])
    (hends : ∀ c ∈ raw ++ raw', isLineEnd c = false) :
    IsInterchangeable raw raw'
      ↔ ∀ w ∈ readWords raw, w.motion? = none ∧ w.positioning? = none := by
  constructor
  · intro h w hw
    have hmotion' : lineMotion? raw' = none := by
      rw [lineMotion?, hnil]
      rfl
    have hkept (mode : Positioning) : positioningAfter mode (readWords raw) = mode := by
      rw [h.positioningAfter_eq hends hmotion', hnil]
      rfl
    -- A last mode word would leave the same mode behind it, whichever mode came before.
    have hmodes : (readWords raw).filterMap Word.positioning? = [] := by
      rw [← List.getLast?_eq_none_iff]
      rcases hlast : ((readWords raw).filterMap Word.positioning?).getLast? with _ | mode
      · rfl
      · have hsame (before : Positioning) : mode = before := by
          rw [← hkept before, positioningAfter, hlast]
          rfl
        cases (hsame .absolute).symm.trans (hsame .relative)
    exact ⟨List.findSome?_eq_none_iff.mp (h.lineMotion?_eq_none hends hmotion') w hw,
      List.filterMap_eq_nil_iff.mp hmodes w hw⟩
  · intro h
    refine (pathAlike_of_forall_none h ?_).isInterchangeable
    rw [hnil]
    exact List.forall_mem_nil _

/-! ## Remarks -/

/-- **A remark counts as a blank, except in front of the first word.** Behind code a remark changes
no program. In front of all code it takes that code away, so that it changes no program exactly when
none of the words moves the head or sets the mode. The reason is that lines are passed over for how
they begin: this loses no words exactly when nothing is left of the line behind a remark that it
begins with. -/
theorem isInterchangeable_of_isRemarked {front back : List (List Char)}
    {raw remarked : List Char} (h : IsRemarked front back raw remarked) :
    (front ≠ [] → IsInterchangeable raw remarked) ∧
    (front = [] → (IsInterchangeable raw remarked ↔
      ∀ w ∈ readWords raw, w.motion? = none ∧ w.positioning? = none)) ∧
    ∀ line, readWords line = Word.ofLine (trim line) ↔
      ∀ remark rest, (∀ c ∈ remark, c ≠ ')' ∧ c ≠ ';') →
        trim line = '(' :: (remark ++ ')' :: rest) → Word.ofLine rest = [] := by
  refine ⟨fun hfront ↦ ?_, ?_, fun line ↦ readWords_eq_ofLine_iff⟩
  · have hwords : readWords raw = readWords remarked := by
      rw [h.readWords_raw, h.readWords_remarked hfront]
    exact (readAlike_of_readWords_eq hwords).pathAlike.isInterchangeable
  · rintro rfl
    exact isInterchangeable_iff_of_readWords_eq_nil h.readWords_remarked_eq_nil h.isLineEnd

/-- A move with a remark behind its code and in front of it. -/
theorem isInterchangeable_of_isRemarked_move :
    IsInterchangeable "G1 X10".toList "G1 (to 10) X10".toList ∧
      ¬ IsInterchangeable "G1 X10".toList "(to 10) G1 X10".toList := by
  have hbehind : IsRemarked ["G1".toList] ["X10".toList] "G1 X10".toList
      "G1 (to 10) X10".toList := by
    refine ⟨by decide, by decide, ⟨"G1 ".toList, "to 10".toList, " X10".toList, ?_⟩, by decide⟩
    decide
  have hfront : IsRemarked [] ["G1".toList, "X10".toList] "G1 X10".toList
      "(to 10) G1 X10".toList := by
    refine ⟨by decide, by decide, ⟨[], "to 10".toList, " G1 X10".toList, ?_⟩, by decide⟩
    decide
  refine ⟨(isInterchangeable_of_isRemarked hbehind).1 (List.cons_ne_nil _ _), fun hsame ↦ ?_⟩
  have hmoves := ((isInterchangeable_of_isRemarked hfront).2.1 rfl).mp hsame
  exact absurd hmoves (by decide +kernel)

end Toolpath

end Engraving
