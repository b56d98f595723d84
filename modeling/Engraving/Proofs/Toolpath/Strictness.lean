import Engraving.Proofs.Text.Utf8
import Engraving.Proofs.Toolpath.LineReading

/-!
# Strict and lenient reading

Lenient reading never fails. Strict reading fails at the first line that moves the head and gives a
coordinate that is no finite number, and it names that line and the first such coordinate on it; on
a text without such a line the two readings are the same. Bytes are read as the text that they
encode, and are refused when they encode none.

A line without a fault does the same to a toolpath in both readings. So the readings go through the
same states up to the first fault, whose line number is told by the count of lines kept in them.
-/

namespace Engraving

/-! ## Faults -/

/-- A line that moves the head and gives a coordinate that is no finite number. -/
def IsFaulty (raw : List Char) : Prop :=
  (∃ w ∈ readWords raw, w.motion?.isSome) ∧ ∃ w ∈ readWords raw, w.isBadCoordinate

/-- The first faulty line has the number `n`, counted from one, and `w` is the first coordinate on
it that is no finite number. -/
def IsFirstFault (read : List (List Char)) (n : ℕ) (w : Word) : Prop :=
  ∃ before raw after, read = before ++ raw :: after ∧ (∀ r ∈ before, ¬ IsFaulty r) ∧
    n = before.length + 1 ∧ (∃ v ∈ readWords raw, v.motion?.isSome) ∧
    ∃ first rest, readWords raw = first ++ w :: rest ∧ w.isBadCoordinate ∧
      ∀ v ∈ first, ¬ v.isBadCoordinate

/-- The word for which a line is refused. -/
def fault? (raw : List Char) : Option Word :=
  if (lineMotion? raw).isSome then (readWords raw).find? Word.isBadCoordinate else none

theorem isSome_lineMotion?_iff {raw : List Char} :
    (lineMotion? raw).isSome = true ↔ ∃ w ∈ readWords raw, w.motion?.isSome := by
  rw [lineMotion?, List.findSome?_isSome_iff]

theorem fault?_eq_some_iff {raw : List Char} {w : Word} :
    fault? raw = some w ↔ (∃ v ∈ readWords raw, v.motion?.isSome) ∧
      ∃ first rest, readWords raw = first ++ w :: rest ∧ w.isBadCoordinate ∧
        ∀ v ∈ first, ¬ v.isBadCoordinate := by
  rw [fault?, ← isSome_lineMotion?_iff]
  by_cases h : (lineMotion? raw).isSome = true
  · rw [if_pos h, List.find?_eq_some_iff_append]
    constructor
    · rintro ⟨hbad, first, rest, hwords, hgood⟩
      exact ⟨h, first, rest, hwords, hbad, by simpa using hgood⟩
    · rintro ⟨-, first, rest, hwords, hbad, hgood⟩
      exact ⟨hbad, first, rest, hwords, by simpa using hgood⟩
  · rw [if_neg h]
    exact ⟨fun hsome ↦ (nomatch hsome), fun hsome ↦ absurd hsome.1 h⟩

theorem fault?_eq_none_iff {raw : List Char} : fault? raw = none ↔ ¬ IsFaulty raw := by
  rw [fault?, IsFaulty, ← isSome_lineMotion?_iff, not_and]
  by_cases h : (lineMotion? raw).isSome = true
  · rw [if_pos h, List.find?_eq_none]
    exact ⟨fun hgood _ ⟨w, hw, hbad⟩ ↦ hgood w hw hbad, fun hgood w hw hbad ↦ hgood h ⟨w, hw, hbad⟩⟩
  · rw [if_neg h]
    exact ⟨fun _ hsome ↦ absurd hsome h, fun _ ↦ rfl⟩

theorem isFirstFault_iff {read : List (List Char)} {n : ℕ} {w : Word} :
    IsFirstFault read n w ↔ ∃ before raw after, read = before ++ raw :: after ∧
      (∀ r ∈ before, fault? r = none) ∧ n = before.length + 1 ∧ fault? raw = some w := by
  simp only [IsFirstFault, fault?_eq_some_iff, fault?_eq_none_iff]

/-- Either no line is faulty, or there is a first one that is. -/
theorem forall_not_isFaulty_or (read : List (List Char)) :
    (∀ raw ∈ read, ¬ IsFaulty raw) ∨ ∃ n w, IsFirstFault read n w := by
  cases h : read.findSome? fault? with
  | none =>
    left
    intro raw hraw
    exact fault?_eq_none_iff.mp (List.findSome?_eq_none_iff.mp h raw hraw)
  | some w =>
    right
    obtain ⟨before, raw, after, hread, hraw, hbefore⟩ := List.findSome?_eq_some_iff.mp h
    exact ⟨_, w, isFirstFault_iff.mpr ⟨before, raw, after, hread, hbefore, rfl, hraw⟩⟩

theorem IsFirstFault.exists_isFaulty {read : List (List Char)} {n : ℕ} {w : Word}
    (h : IsFirstFault read n w) : ∃ raw ∈ read, IsFaulty raw := by
  obtain ⟨before, raw, after, rfl, -, -, hmotion, first, rest, hwords, hbad, -⟩ := h
  exact ⟨raw, by simp, hmotion, w, by simp [hwords], hbad⟩

/-! ## Reading lines -/

namespace Toolpath

variable (t : Toolpath)

/-- Lenient reading of a line succeeds, and strict reading does the same unless there is a fault. -/
theorem exists_line (raw : List Char) :
    ∃ u : Toolpath, u.lineCount = t.lineCount + 1 ∧ t.line false raw = .ok u ∧
      t.line true raw = match fault? raw with
        | some w => .error (.badCoordinate (t.lineCount + 1) w)
        | none => .ok u := by
  rw [line, line, HeadState.line_trim, HeadState.line_trim, fault?]
  cases lineMotion? raw with
  | none =>
    refine ⟨_, ?_, rfl, rfl⟩
    split <;> rfl
  | some motion =>
    refine ⟨_, rfl, rfl, ?_⟩
    rw [if_pos rfl, if_pos Option.isSome_some]
    cases (readWords raw).find? Word.isBadCoordinate <;> rfl

theorem exists_foldlM_line_false (read : List (List Char)) :
    ∃ u, read.foldlM (line false) t = .ok u := by
  induction read generalizing t with
  | nil => exact ⟨t, rfl⟩
  | cons raw rest ih =>
    obtain ⟨u, -, hline, -⟩ := t.exists_line raw
    rw [List.foldlM_cons, hline]
    exact ih u

/-- Lines without a fault do the same in both readings. -/
theorem exists_foldlM_line {read : List (List Char)} (h : ∀ raw ∈ read, fault? raw = none) :
    ∃ u : Toolpath, u.lineCount = t.lineCount + read.length ∧
      ∀ strict, read.foldlM (line strict) t = .ok u := by
  induction read generalizing t with
  | nil => exact ⟨t, rfl, fun _ ↦ rfl⟩
  | cons raw rest ih =>
    obtain ⟨hraw, hrest⟩ := List.forall_mem_cons.mp h
    obtain ⟨v, hcount, hlenient, hstrict⟩ := t.exists_line raw
    rw [hraw] at hstrict
    obtain ⟨u, hcount', hu⟩ := ih v hrest
    refine ⟨u, ?_, fun strict ↦ ?_⟩
    · rw [hcount', hcount, List.length_cons]
      omega
    · rw [List.foldlM_cons, ← hu strict]
      cases strict
      · rw [hlenient]
        rfl
      · rw [hstrict]
        rfl

theorem foldlM_line_true_of_isFirstFault {read : List (List Char)} {n : ℕ} {w : Word}
    (h : IsFirstFault read n w) :
    read.foldlM (line true) t = .error (.badCoordinate (t.lineCount + n) w) := by
  obtain ⟨before, raw, after, rfl, hbefore, rfl, hraw⟩ := isFirstFault_iff.mp h
  obtain ⟨u, hcount, hu⟩ := t.exists_foldlM_line hbefore
  obtain ⟨_, -, -, hstrict⟩ := u.exists_line raw
  rw [hraw, hcount] at hstrict
  rw [List.foldlM_append, hu true]
  change (raw :: after).foldlM (line true) u = _
  rw [List.foldlM_cons, hstrict]
  rfl

/-! ## Reading texts and bytes -/

theorem ofText?_true_of_isFirstFault {text : List Char} {n : ℕ} {w : Word}
    (h : IsFirstFault (lines text) n w) :
    ofText? true text = .error (.badCoordinate n w) := by
  have hread := foldlM_line_true_of_isFirstFault {} h
  rw [show ({} : Toolpath).lineCount + n = n from Nat.zero_add n] at hread
  rw [ofText?, hread]
  rfl

theorem ofText?_true_eq_false {text : List Char} (h : ∀ raw ∈ lines text, ¬ IsFaulty raw) :
    ofText? true text = ofText? false text := by
  obtain ⟨u, -, hu⟩ := exists_foldlM_line {} fun raw hraw ↦ fault?_eq_none_iff.mpr (h raw hraw)
  rw [ofText?, ofText?, hu true, hu false]

theorem exists_ofText?_false (text : List Char) : ∃ t, ofText? false text = .ok t := by
  obtain ⟨u, hu⟩ := exists_foldlM_line_false {} (lines text)
  exact ⟨u.inOrder, by rw [ofText?, hu]; rfl⟩

/-- **Strict and lenient reading agree up to the first fault.** Lenient reading succeeds on every
text. Strict reading fails exactly when some line is faulty, with an error that names the first
fault, and otherwise gives the same toolpath. Bytes that encode a text are read as that text, and
all other bytes are refused in both readings. -/
theorem ofText?_strict_iff :
    (∀ text, ∃ t, ofText? false text = .ok t) ∧
    (∀ text, (∃ e, ofText? true text = .error e) ↔ ∃ raw ∈ lines text, IsFaulty raw) ∧
    (∀ text e, ofText? true text = .error e ↔
      ∃ n w, IsFirstFault (lines text) n w ∧ e = .badCoordinate n w) ∧
    (∀ text, (∀ raw ∈ lines text, ¬ IsFaulty raw) → ofText? true text = ofText? false text) ∧
    (∀ strict text, ofBytes? strict (Utf8.encode text) = ofText? strict text) ∧
    ∀ bytes, (∀ text, bytes ≠ Utf8.encode text) →
      ∃ e, ∀ strict, ofBytes? strict bytes = .error (.notUtf8 e) := by
  -- Both parts about errors rest on the first fault.
  have hfail (text : List Char) (e : ProgramError) : ofText? true text = .error e ↔
      ∃ n w, IsFirstFault (lines text) n w ∧ e = .badCoordinate n w := by
    constructor
    · intro he
      rcases forall_not_isFaulty_or (lines text) with hgood | ⟨n, w, hfirst⟩
      · obtain ⟨t, ht⟩ := exists_ofText?_false text
        rw [ofText?_true_eq_false hgood, ht] at he
        cases he
      · rw [ofText?_true_of_isFirstFault hfirst] at he
        exact ⟨n, w, hfirst, (Except.error.inj he).symm⟩
    · rintro ⟨n, w, hfirst, rfl⟩
      exact ofText?_true_of_isFirstFault hfirst
  refine ⟨exists_ofText?_false, fun text ↦ ⟨?_, ?_⟩, hfail, fun _ ↦ ofText?_true_eq_false,
    fun strict text ↦ ?_, fun bytes h ↦ ?_⟩
  · rintro ⟨e, he⟩
    obtain ⟨n, w, hfirst, -⟩ := (hfail text e).mp he
    exact hfirst.exists_isFaulty
  · rintro ⟨raw, hraw, hfaulty⟩
    rcases forall_not_isFaulty_or (lines text) with hgood | ⟨n, w, hfirst⟩
    · exact absurd hfaulty (hgood raw hraw)
    · exact ⟨_, ofText?_true_of_isFirstFault hfirst⟩
  · rw [ofBytes?, Utf8.decode_eq_ok_iff.mpr rfl]
  · cases hdecode : Utf8.decode bytes with
    | ok text => exact absurd (Utf8.decode_eq_ok_iff.mp hdecode) (h text)
    | error e => exact ⟨e, fun strict ↦ by rw [ofBytes?, hdecode]⟩

/-- A text with bad coordinates on lines that move nothing, in a remark and, last, in earnest. -/
def faultyText : List Char :=
  "G1 X1\nM5 Xq\n; G1 Yq\n(G1 Zq)\ng1 x2 y1.2.3 z-\nG0 Xq".toList

theorem ofText?_true_faultyText :
    (∃ t, ofText? false faultyText = .ok t) ∧
      ofText? true faultyText = .error (.badCoordinate 5 ⟨'Y', "1.2.3".toList⟩) ∧
      ofBytes? true (Utf8.encode faultyText) = ofText? true faultyText ∧
      ∃ e, ∀ strict, ofBytes? strict [0x47, 0xFF] = .error (.notUtf8 e) := by
  obtain ⟨hlenient, -, hfail, -, hbytes, hrefuse⟩ := ofText?_strict_iff
  refine ⟨hlenient _, (hfail _ _).mpr ⟨5, _, ?_, rfl⟩, hbytes _ _, hrefuse _ fun text h ↦ ?_⟩
  · refine isFirstFault_iff.mpr ⟨(lines faultyText).take 4, "g1 x2 y1.2.3 z-".toList,
      ["G0 Xq".toList], ?_, ?_, ?_, ?_⟩ <;> decide +kernel
  · have hdecode := Utf8.decode_eq_ok_iff.mpr h
    rw [show Utf8.decode [0x47, 0xFF] = .error ⟨.start, 1, 0xFF, 1⟩ by decide +kernel] at hdecode
    cases hdecode

end Toolpath

end Engraving
