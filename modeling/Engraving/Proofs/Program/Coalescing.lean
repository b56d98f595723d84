import Engraving.Program.Job
import Engraving.Proofs.Number.RepeatedSum

/-!
# Coalescing written moves

Moves are recognised in written lines, and all other lines are kept.
-/

namespace Engraving

/-! ## Moves as they are written

A line is taken for a move when it has the form of one, in the digits of any script. Such a line is
always read: its length is a decimal in every script, and its parts are told by the characters that
stand between them.
-/

/-! ### Digits of all scripts -/

def IsDigits (text : List Char) : Prop := text ≠ [] ∧ ∀ c ∈ text, isDigit c = true

instance : DecidablePred IsDigits := fun text ↦
  inferInstanceAs (Decidable (text ≠ [] ∧ ∀ c ∈ text, isDigit c = true))

theorem isDigit_of_ascii {c : Char} (h : c.isDigit = true) : isDigit c = true := by
  rw [isDigit, digitValue?_of_ascii h]
  rfl

/-- A digit beyond ASCII stands in one of the blocks of ten. -/
theorem exists_mem_digitZeros {c : Char} (h : isDigit c = true) (hc : 128 ≤ c.toNat) :
    ∃ z ∈ digitZeros, ∃ d < 10, c = Char.ofNat (z + d) ∧ digitValue? c = some d := by
  rw [isDigit, digitValue?, if_neg (by omega), Option.isSome_map, Option.isSome_iff_exists] at h
  obtain ⟨z, hz⟩ := h
  have hrange := List.find?_some hz
  rw [Bool.and_eq_true, decide_eq_true_iff, decide_eq_true_iff] at hrange
  refine ⟨z, List.mem_of_find?_eq_some hz, c.toNat - z, by omega, ?_, ?_⟩
  · rw [Nat.add_sub_cancel' hrange.1, Char.ofNat_toNat]
  · rw [digitValue?, if_neg (by omega), hz, Option.map_some]

theorem isDigit_plainChar {c : Char} (h : isDigit c = true) : (plainChar c).isDigit = true := by
  by_cases hsmall : c.toNat < 128
  · have hrange : 48 ≤ c.toNat ∧ c.toNat ≤ 57 := by
      rw [isDigit, digitValue?, if_pos hsmall] at h
      split at h
      · next hc => rwa [Bool.and_eq_true, decide_eq_true_iff, decide_eq_true_iff] at hc
      · cases h
    rw [plainChar_eq_self (by omega), Char.isDigit, Bool.and_eq_true, decide_eq_true_iff,
      decide_eq_true_iff]
    exact ⟨hrange.1, hrange.2⟩
  · obtain ⟨z, hz, d, hd, rfl, hvalue⟩ := exists_mem_digitZeros h (by omega)
    have hblank : ∀ z ∈ digitZeros, ∀ d < 10, isBlank (Char.ofNat (z + d)) = false := by
      decide +kernel
    have hascii : ∀ d < 10, (Char.ofNat (48 + d)).isDigit = true := by decide
    rw [plainChar, if_neg (by omega), hblank z hz d hd, if_neg Bool.false_ne_true]
    simp only [hvalue]
    exact hascii d hd

/-! ### The form of a move -/

/-- The parts of a move as it is written. -/
structure WrittenMove where
  negative : Bool
  whole : List Char
  fraction : List Char
  power : List Char
  isDigits_whole : IsDigits whole
  isDigits_fraction : IsDigits fraction
  isDigits_power : IsDigits power

namespace WrittenMove

variable (m : WrittenMove)

def number : List Char := FixedPoint.signChars m.negative ++ (m.whole ++ '.' :: m.fraction)

def text : List Char := "G1 X".toList ++ (m.number ++ 'S' :: m.power)

/-- The line is the move, and a line feed may stand behind it. -/
def IsOn (line : String) : Prop := line.toList = m.text ∨ line.toList = m.text ++ ['\n']

theorem readFloat?_number :
    readFloat? m.number = some
      (if m.negative then
        -decimalFloat (digitsValue ((m.whole ++ m.fraction).map plainChar)) (-m.fraction.length)
      else decimalFloat (digitsValue ((m.whole ++ m.fraction).map plainChar))
        (-m.fraction.length)) := by
  have hascii {digits : List Char} (h : IsDigits digits) :
      ∀ c ∈ digits.map plainChar, c.isDigit = true :=
    List.forall_mem_map.mpr fun c hc ↦ isDigit_plainChar (h.2 c hc)
  have hsignChars : (FixedPoint.signChars m.negative).map plainChar
      = FixedPoint.signChars m.negative := by
    cases m.negative <;> decide
  have hplain : m.number.map plainChar = FixedPoint.signChars m.negative ++
      (m.whole.map plainChar ++ '.' :: m.fraction.map plainChar) := by
    rw [number, List.map_append, List.map_append, List.map_cons, hsignChars]
    rfl
  -- No blank is cut off and no underscore is dropped.
  have hrange : ∀ c ∈ m.number, 32 < (plainChar c).toNat ∧ (plainChar c).toNat < 95 := by
    intro c hc
    have hmem : plainChar c ∈ m.number.map plainChar := List.mem_map_of_mem hc
    have hnumeral : isNumeral (plainChar c) = true := by
      rw [hplain, List.mem_append, List.mem_append, List.mem_cons] at hmem
      rcases hmem with hsign | hwhole | hpoint | hfraction
      · revert hsign
        cases m.negative
        · rintro ⟨⟩
        · intro hminus
          rw [List.mem_singleton.mp hminus]
          rfl
      · exact isNumeral_of_isDigit (hascii m.isDigits_whole _ hwhole)
      · rw [hpoint]
        rfl
      · exact isNumeral_of_isDigit (hascii m.isDigits_fraction _ hfraction)
    have hbounds := toNat_of_isNumeral hnumeral
    omega
  have hne : m.whole.map plainChar ≠ [] := fun h ↦ m.isDigits_whole.1 (List.map_eq_nil_iff.mp h)
  have hsign : splitSign (m.number.map plainChar)
      = (m.negative, m.whole.map plainChar ++ '.' :: m.fraction.map plainChar) := by
    rw [hplain]
    refine splitSign_signChars m.negative _ fun c hc ↦ ?_
    rw [List.head?_append_of_ne_nil _ hne] at hc
    exact hascii m.isDigits_whole c (List.mem_of_mem_head? hc)
  have hexponent : readExponent? [] = some 0 := rfl
  have hmagnitude := readMagnitude?_append (hascii m.isDigits_whole) (hascii m.isDigits_fraction)
    (.inl rfl) (List.append_ne_nil_of_left_ne_nil hne _) (by rintro c ⟨⟩) hexponent
  rw [List.append_nil, List.singleton_append, ← List.map_append, List.length_map, zero_sub]
    at hmagnitude
  rw [readFloat?_eq_of_plainChar hrange hsign, hmagnitude, Option.map_some]

end WrittenMove

/-! ### Reading a move -/

namespace PowerMove

theorem dropText?_eq_some_iff {expected text rest : List Char} :
    dropText? expected text = some rest ↔ text = expected ++ rest := by
  induction expected generalizing text with
  | nil => exact ⟨fun h ↦ Option.some.inj h, fun h ↦ congrArg some h⟩
  | cons c expected ih =>
    match text with
    | [] => exact ⟨fun h ↦ (nomatch h), fun h ↦ (nomatch h)⟩
    | d :: text =>
      rw [dropText?, List.cons_append, List.cons.injEq]
      split
      · next hcd => rw [ih, and_iff_right hcd.symm]
      · next hcd => exact ⟨fun h ↦ (nomatch h), fun h ↦ absurd h.1.symm hcd⟩

/-- The digits that are split off go on as far as they can. -/
theorem takeDigits?_eq_some_iff {text digits rest : List Char} :
    takeDigits? text = some (digits, rest) ↔
      text = digits ++ rest ∧ IsDigits digits ∧ ∀ c ∈ rest.head?, isDigit c = false := by
  rw [takeDigits?]
  constructor
  · intro h
    split at h
    · cases h
    · next hne =>
      cases h
      refine ⟨List.takeWhile_append_dropWhile.symm, ⟨fun hnil ↦ hne (List.isEmpty_iff.mpr hnil),
        fun c hc ↦ List.mem_takeWhile_imp hc⟩, fun c hc ↦ ?_⟩
      have hhead := List.head?_dropWhile_not isDigit text
      rw [Option.mem_def.mp hc] at hhead
      exact hhead
  · rintro ⟨rfl, ⟨hne, hdigits⟩, hrest⟩
    have htake : (digits ++ rest).takeWhile isDigit = digits ∧
        (digits ++ rest).dropWhile isDigit = rest := by
      rw [List.takeWhile_append_of_pos hdigits, List.dropWhile_append_of_pos hdigits]
      match rest with
      | [] => exact ⟨List.append_nil digits, rfl⟩
      | c :: rest =>
        have hc : ¬ isDigit c = true := by
          rw [hrest c rfl]
          exact Bool.false_ne_true
        rw [List.takeWhile_cons_of_neg hc, List.dropWhile_cons_of_neg hc]
        exact ⟨List.append_nil digits, rfl⟩
    simp only [htake]
    rw [if_neg (by rwa [List.isEmpty_iff])]

theorem unsigned_append (negative : Bool) {rest : List Char} (h : ∀ c ∈ rest.head?, c ≠ '-') :
    ((FixedPoint.signChars negative ++ rest).head? == some '-') = negative ∧
      (if negative then (FixedPoint.signChars negative ++ rest).tail
        else FixedPoint.signChars negative ++ rest) = rest := by
  cases negative
  · refine ⟨?_, rfl⟩
    rw [FixedPoint.signChars, if_neg Bool.false_ne_true, List.nil_append, beq_eq_false_iff_ne]
    exact fun hminus ↦ h '-' hminus rfl
  · exact ⟨rfl, rfl⟩

theorem signChars_append_unsigned (text : List Char) :
    FixedPoint.signChars (text.head? == some '-') ++
      (if text.head? == some '-' then text.tail else text) = text := by
  by_cases hminus : text.head? = some '-'
  · obtain ⟨rest, rfl⟩ := List.head?_eq_some_iff.mp hminus
    rfl
  · rw [beq_eq_false_iff_ne.mpr hminus]
    rfl

theorem read?_text_append (m : WrittenMove) {rest : List Char}
    (hrest : ∀ c ∈ rest.head?, isDigit c = false) :
    read? (m.text ++ rest) = (readFloat? m.number).bind fun length ↦
      if rest = [] || rest = ['\n'] then some ⟨m.negative, length, m.power⟩ else none := by
  have htext : m.text ++ rest = "G1 X".toList ++ (FixedPoint.signChars m.negative ++
      (m.whole ++ '.' :: (m.fraction ++ 'S' :: (m.power ++ rest)))) := by
    simp only [WrittenMove.text, WrittenMove.number, List.append_assoc, List.cons_append]
  have hstart (later : List Char) : ∀ c ∈ (m.whole ++ later).head?, c ≠ '-' := by
    rw [List.head?_append_of_ne_nil _ m.isDigits_whole.1]
    rintro c hc rfl
    exact absurd (m.isDigits_whole.2 '-' (List.mem_of_mem_head? hc)) (by decide)
  have hsign := unsigned_append m.negative
    (hstart ('.' :: (m.fraction ++ 'S' :: (m.power ++ rest))))
  -- Each run of digits ends where the next mark stands, since no mark is a digit of any script.
  have hwhole (later : List Char) :
      takeDigits? (m.whole ++ '.' :: later) = some (m.whole, '.' :: later) :=
    takeDigits?_eq_some_iff.mpr ⟨rfl, m.isDigits_whole, by rintro c ⟨⟩; decide⟩
  have hfraction (later : List Char) :
      takeDigits? (m.fraction ++ 'S' :: later) = some (m.fraction, 'S' :: later) :=
    takeDigits?_eq_some_iff.mpr ⟨rfl, m.isDigits_fraction, by rintro c ⟨⟩; decide⟩
  have hpower : takeDigits? (m.power ++ rest) = some (m.power, rest) :=
    takeDigits?_eq_some_iff.mpr ⟨rfl, m.isDigits_power, hrest⟩
  have hpoint (later : List Char) : dropText? ['.'] ('.' :: later) = some later :=
    dropText?_eq_some_iff.mpr rfl
  have hmark (later : List Char) : dropText? ['S'] ('S' :: later) = some later :=
    dropText?_eq_some_iff.mpr rfl
  rw [htext, read?, dropText?_eq_some_iff.mpr rfl]
  simp only [Option.bind_eq_bind, Option.bind_some, hsign, hwhole, hpoint, hfraction, hmark,
    hpower]
  rw [List.append_assoc]
  rfl

theorem exists_of_read? {line : List Char} {move : PowerMove} (h : read? line = some move) :
    ∃ (m : WrittenMove) (rest : List Char), line = m.text ++ rest ∧ (rest = [] ∨ rest = ['\n']) ∧
      m.negative = move.negative ∧ m.power = move.power ∧
      readFloat? m.number = some move.length := by
  -- Each part of the form is read from what the one before has left.
  simp only [read?, Option.bind_eq_bind, Option.bind_eq_some_iff, dropText?_eq_some_iff] at h
  obtain ⟨signed, rfl, ⟨whole, afterWhole⟩, hwhole, afterPoint, rfl, ⟨fraction, afterFraction⟩,
    hfraction, afterMark, rfl, ⟨power, rest⟩, hpower, length, hlength, hend⟩ := h
  rw [takeDigits?_eq_some_iff] at hwhole hfraction hpower
  obtain ⟨hunsigned, hwhole, -⟩ := hwhole
  obtain ⟨rfl, hfraction, -⟩ := hfraction
  obtain ⟨rfl, hpower, -⟩ := hpower
  split at hend
  · next hrest =>
    rw [Bool.or_eq_true, decide_eq_true_iff, decide_eq_true_iff] at hrest
    cases hend
    refine ⟨⟨signed.head? == some '-', whole, fraction, power, hwhole, hfraction, hpower⟩, rest, ?_,
      hrest, rfl, rfl, ?_⟩
    · conv_lhs => rw [← signChars_append_unsigned signed, hunsigned]
      simp only [WrittenMove.text, WrittenMove.number, List.append_assoc, List.cons_append,
        List.nil_append]
    · rw [WrittenMove.number, ← List.append_assoc]
      exact hlength
  · cases hend

/-- **The form of a move.** What is read as a move is what has the form of one. -/
theorem read?_eq_some_iff {line : String} {negative : Bool} {length : Float} {power : List Char} :
    read? line.toList = some ⟨negative, length, power⟩ ↔
      ∃ m : WrittenMove, m.IsOn line ∧ m.negative = negative ∧ m.power = power ∧
        readFloat? m.number = some length := by
  constructor
  · intro h
    obtain ⟨m, rest, hline, hrest, hmove⟩ := exists_of_read? h
    refine ⟨m, ?_, hmove⟩
    rcases hrest with rfl | rfl
    · exact .inl (hline.trans (List.append_nil _))
    · exact .inr hline
  · rintro ⟨m, hline, rfl, rfl, hlength⟩
    rcases hline with hline | hline
    · rw [hline, ← List.append_nil m.text, read?_text_append m (by rintro c ⟨⟩), hlength]
      rfl
    · rw [hline, read?_text_append m (by rintro c ⟨⟩; decide), hlength]
      rfl

/-- The power of a move is a run of digits on its line. -/
theorem power_of_read? {line : List Char} {move : PowerMove} (h : read? line = some move) :
    IsDigits move.power ∧ move.power ⊆ line := by
  obtain ⟨m, rest, rfl, -, -, hpower, -⟩ := exists_of_read? h
  rw [← hpower]
  refine ⟨m.isDigits_power, fun c hc ↦ List.mem_append_left _ ?_⟩
  exact List.mem_append_right _ (List.mem_append_right _ (List.mem_cons_of_mem _ hc))

/-- A decimal that is printed on the line of a move is read back. -/
theorem read?_finite (negative : Bool) (units : ℕ) {power : List Char} (hpower : IsDigits power) :
    read? ("G1 X" ++ (FixedPoint.finite negative units : FixedPoint 3).text ++ "S" ++
      String.ofList power).toList = some ⟨negative, decimalReading negative units, power⟩ := by
  have hfraction : FixedPoint.fractionDigits 3 units ≠ [] := by
    rw [← List.length_pos_iff, FixedPoint.length_fractionDigits (by norm_num)]
    norm_num
  let m : WrittenMove := ⟨negative, FixedPoint.wholeDigits 3 units,
    FixedPoint.fractionDigits 3 units, power,
    ⟨FixedPoint.wholeDigits_ne_nil units,
      fun _ hc ↦ isDigit_of_ascii (FixedPoint.isDigit_of_mem_wholeDigits hc)⟩,
    ⟨hfraction, fun _ hc ↦ isDigit_of_ascii (FixedPoint.isDigit_of_mem_fractionDigits hc)⟩, hpower⟩
  have hnumber : m.number = (FixedPoint.finite negative units : FixedPoint 3).text.toList :=
    (FixedPoint.toList_text_finite negative units).symm
  have hdigits : (String.ofList power).toList = power := String.toList_ofList
  refine read?_eq_some_iff.mpr ⟨m, .inl ?_, rfl, rfl, ?_⟩
  · rw [String.toList_append, String.toList_append, String.toList_append, hdigits,
      WrittenMove.text, hnumber, List.append_assoc, List.append_assoc]
    rfl
  · rw [hnumber, FixedPoint.readFloat?_text (by norm_num), decimalReading]
    rfl

end PowerMove

/-! ## What coalescing keeps

Coalescing takes up one line after the other and never looks back behind a line that is no move. So
such a line divides the work: what comes before and what comes after it are coalesced separately.
And every line that comes out either went in and is no move, or is a move whose power was written on
one of the lines.
-/

/-! ### Lines that are no moves -/

namespace PowerMove

theorem read?_eq_none {line : List Char} (h : dropText? "G1 X".toList line = none) :
    read? line = none := by
  rw [read?, h]
  rfl

end PowerMove

namespace Coalescing

/-- Lines that are settled already have no part in what follows. -/
theorem foldl_line_append (lines done earlier : List String) (run? : Option PowerMove) :
    lines.foldl line ⟨done ++ earlier, run?⟩
      = ⟨(lines.foldl line ⟨done, run?⟩).done ++ earlier,
        (lines.foldl line ⟨done, run?⟩).run?⟩ := by
  induction lines generalizing done run? with
  | nil => rfl
  | cons text rest ih =>
    have hflush : (⟨done ++ earlier, run?⟩ : Coalescing).flush.done
        = (⟨done, run?⟩ : Coalescing).flush.done ++ earlier := by
      rw [flush, flush, List.append_assoc]
    -- One line puts its results in front, whatever lies behind.
    have hline : (⟨done ++ earlier, run?⟩ : Coalescing).line text
        = ⟨((⟨done, run?⟩ : Coalescing).line text).done ++ earlier,
          ((⟨done, run?⟩ : Coalescing).line text).run?⟩ := by
      rw [line, line]
      split
      · rw [move, move]
        dsimp only
        split
        · rfl
        · rw [hflush]
      · rw [hflush]
        rfl
    rw [List.foldl_cons, List.foldl_cons, hline, ih]

end Coalescing

theorem coalesce_append_cons (before after : List String) {text : String}
    (h : PowerMove.read? text.toList = none) :
    coalesce (before ++ text :: after) = coalesce before ++ text :: coalesce after := by
  have hline (c : Coalescing) : c.line text = ⟨[] ++ text :: c.flush.done, none⟩ := by
    rw [Coalescing.line, h]
    rfl
  rw [coalesce, List.foldl_append, List.foldl_cons, hline, Coalescing.foldl_line_append]
  simp only [coalesce, Coalescing.flush, List.reverse_append, List.reverse_cons, List.append_assoc,
    List.cons_append, List.nil_append]

theorem coalesce_cons {text : String} (h : PowerMove.read? text.toList = none)
    (after : List String) : coalesce (text :: after) = text :: coalesce after :=
  coalesce_append_cons [] after h

theorem coalesce_eq_self {lines : List String}
    (h : ∀ text ∈ lines, PowerMove.read? text.toList = none) : coalesce lines = lines := by
  induction lines with
  | nil => rfl
  | cons text rest ih =>
    rw [coalesce_cons (h text List.mem_cons_self),
      ih fun t ht ↦ h t (List.mem_cons_of_mem _ ht)]

/-! ### The lines that come out -/

/-- A line that comes out of coalescing: one that is no move, or a move whose direction and power
were written on one of the lines. -/
inductive IsCoalesced (lines : List String) : String → Prop
  | line {text : String} (hmem : text ∈ lines) (h : PowerMove.read? text.toList = none) :
    IsCoalesced lines text
  | move {text : String} {m : PowerMove} (hmem : text ∈ lines) (length : Float)
    (h : PowerMove.read? text.toList = some { m with length }) : IsCoalesced lines m.text

namespace Coalescing

variable {lines : List String} {c : Coalescing}

/-- All that has been taken up comes from the given lines. -/
structure ComesFrom (lines : List String) (c : Coalescing) : Prop where
  done : ∀ text ∈ c.done, IsCoalesced lines text
  run : ∀ m ∈ c.run?, ∃ text ∈ lines, ∃ length,
    PowerMove.read? text.toList = some { m with length }

theorem ComesFrom.flush (h : c.ComesFrom lines) :
    ∀ text ∈ c.flush.done, IsCoalesced lines text := by
  intro text htext
  rcases List.mem_append.mp htext with hrun | hdone
  · obtain ⟨m, hm, rfl⟩ := Option.map_eq_some_iff.mp (Option.mem_toList.mp hrun)
    obtain ⟨line, hmem, length, hread⟩ := h.run m hm
    exact .move hmem length hread
  · exact h.done text hdone

theorem ComesFrom.line (h : c.ComesFrom lines) {text : String} (hmem : text ∈ lines) :
    (c.line text).ComesFrom lines := by
  rw [Coalescing.line]
  split
  · next m hread =>
    rw [move]
    split
    · next run hrun =>
      -- The run grows in length only, so the line that began it still speaks for it.
      obtain ⟨line, hline, length, hread'⟩ := h.run run (Option.filter_eq_some_iff.mp hrun).1
      refine ⟨h.done, ?_⟩
      rintro _ ⟨⟩
      exact ⟨line, hline, length, hread'⟩
    · refine ⟨h.flush, ?_⟩
      rintro _ ⟨⟩
      exact ⟨text, hmem, m.length, hread⟩
  · next hread =>
    exact ⟨List.forall_mem_cons.mpr ⟨.line hmem hread, h.flush⟩, by rintro _ ⟨⟩⟩

theorem ComesFrom.foldl_line (h : c.ComesFrom lines) {texts : List String} (hsub : texts ⊆ lines) :
    (texts.foldl Coalescing.line c).ComesFrom lines := by
  induction texts generalizing c with
  | nil => exact h
  | cons text rest ih =>
    obtain ⟨hmem, hrest⟩ := List.cons_subset.mp hsub
    exact ih (h.line hmem) hrest

end Coalescing

theorem isCoalesced_of_mem_coalesce {lines : List String} {text : String}
    (h : text ∈ coalesce lines) : IsCoalesced lines text := by
  have hblank : Coalescing.ComesFrom lines ⟨[], none⟩ := ⟨List.forall_mem_nil _, by rintro _ ⟨⟩⟩
  exact (hblank.foldl_line (List.Subset.refl lines)).flush text (List.mem_reverse.mp h)

end Engraving
