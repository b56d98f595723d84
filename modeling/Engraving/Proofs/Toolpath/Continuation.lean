import Engraving.Proofs.Text.Lines
import Engraving.Proofs.Toolpath.Invariant
import Engraving.Proofs.Toolpath.Strictness

/-!
# Reading on

A program may be read in parts. What the first part leaves to the second is where the head is and
how coordinates are meant; all else that is kept while reading is a list or a count, to which the
second part adds behind what is there. So the second part is read as if it stood alone and the head
were put there beforehand, `Toolpath.onto`, save that its lines have greater numbers. This is told
of one line first, then of many, and last of texts: the texts meet at a line feed, where no line end
of two characters can be torn apart.
-/

namespace Engraving

/-- The error for a line that has so many lines before it. -/
def ProgramError.behind (count : ℕ) : ProgramError → ProgramError
  | badCoordinate line word => badCoordinate (count + line) word
  | other => other

namespace Toolpath

/-- What is read in the state that `t` leaves, put behind `t`. Both are in the course of being read,
so that their lists are in reverse. -/
def onto (t u : Toolpath) : Toolpath where
  state := u.state
  lineCount := t.lineCount + u.lineCount
  arcCount := t.arcCount + u.arcCount
  segments := u.segments ++ t.segments
  idleLines := u.idleLines.map (Prod.map (t.lineCount + ·) id) ++ t.idleLines

/-- What is read of a text when the head is in the state `s` beforehand. -/
def resume? (strict : Bool) (s : HeadState) (text : List Char) : Except ProgramError Toolpath :=
  (lines text).foldlM (line strict) { state := s }

/-! ## One line -/

section line

variable (t : Toolpath)

theorem headState_line_behind (strict : Bool) (count number : ℕ) (s : HeadState)
    (trimmed : List Char) :
    s.line strict (count + number) trimmed
      = (s.line strict number trimmed).mapError (ProgramError.behind count) := by
  have hwords (words : List Word) : s.words strict (count + number) words
      = (s.words strict number words).mapError (ProgramError.behind count) := by
    rw [HeadState.words, HeadState.words]
    split
    · rfl
    · split <;> rfl
  rw [HeadState.line, HeadState.line]
  split
  · rfl
  · split
    · rfl
    · exact hwords _

theorem outcome_onto (u : Toolpath) (trimmed : List Char) (state : HeadState)
    (result : LineOutcome) :
    (t.onto u).outcome trimmed state result = t.onto (u.outcome trimmed state result) := by
  match result with
  | .blank | .idle => rfl
  | .moved motion segment =>
    by_cases harc : motion = .arc
    · simp only [outcome, onto, if_pos harc]
      rfl
    · simp only [outcome, onto, if_neg harc]
      rfl

theorem line_onto (strict : Bool) (u : Toolpath) (raw : List Char) :
    (t.onto u).line strict raw
      = ((u.line strict raw).map t.onto).mapError (ProgramError.behind t.lineCount) := by
  have hnumber : (t.onto u).lineCount + 1 = t.lineCount + (u.lineCount + 1) := Nat.add_assoc _ _ _
  rw [line, line, hnumber, headState_line_behind]
  change (((u.state.line strict (u.lineCount + 1) (trim raw)).mapError _) >>= _) = _
  rcases u.state.line strict (u.lineCount + 1) (trim raw) with e | ⟨state, result⟩
  · rfl
  · exact congrArg Except.ok (t.outcome_onto u (trim raw) state result)

end line

/-! ## Many lines -/

theorem foldlM_line_onto (strict : Bool) (t u : Toolpath) (read : List (List Char)) :
    read.foldlM (line strict) (t.onto u)
      = ((read.foldlM (line strict) u).map t.onto).mapError (ProgramError.behind t.lineCount) := by
  induction read generalizing u with
  | nil => rfl
  | cons raw rest ih =>
    rw [List.foldlM_cons, List.foldlM_cons, line_onto]
    rcases u.line strict raw with e | v
    · rfl
    · exact ih v

theorem onto_empty (t : Toolpath) : t.onto { state := t.state } = t := rfl

/-! ## Texts -/

/-- The second of two texts is read in the state that the first one leaves. -/
theorem ofText?_append (strict : Bool) {first : List Char} (h : EndsLine first)
    (second : List Char) :
    ofText? strict (first ++ second)
      = (do
        let t ← (lines first).foldlM (line strict) {}
        let u ← (resume? strict t.state second).mapError (ProgramError.behind t.lineCount)
        return (t.onto u).inOrder) := by
  rw [ofText?, lines_append h, List.foldlM_append]
  rcases (lines first).foldlM (line strict) {} with e | t
  · rfl
  · have hread := foldlM_line_onto strict t { state := t.state } (lines second)
    rw [onto_empty, ← resume?] at hread
    rw [ok_bind, ok_bind, hread]
    rcases resume? strict t.state second with e | u <;> rfl

variable {first : List Char} {t : Toolpath}

/-- What is read of the second text depends on the state before it alone. -/
theorem exists_resume?_of_ofText? (h : EndsLine first) (ht : ofText? false first = .ok t)
    (second : List Char) :
    ∃ later u, resume? false t.state second = .ok later ∧ ofText? false (first ++ second) = .ok u ∧
      u.segments = t.segments ++ later.segments.reverse ∧
      u.arcCount = t.arcCount + later.arcCount := by
  obtain ⟨s, hs, hfinish⟩ := bind_eq_ok_iff.mp ht
  obtain rfl := Except.ok.inj hfinish
  obtain ⟨later, hlater⟩ := exists_foldlM_line_false { state := s.state } (lines second)
  refine ⟨later, (s.onto later).inOrder, hlater, ?_, List.reverse_append, rfl⟩
  rw [ofText?_append false h, hs, ok_bind, resume?, hlater]
  rfl

/-- An error in the first text ends the reading before the second one is looked at. -/
theorem ofText?_append_eq_error {strict : Bool} (h : EndsLine first) {e : ProgramError}
    (he : ofText? strict first = .error e) (second : List Char) :
    ofText? strict (first ++ second) = .error e := by
  rcases bind_eq_error_iff.mp he with hread | ⟨_, _, hfinish⟩
  · rw [ofText?_append strict h, hread]
    rfl
  · cases hfinish

/-- The toolpath `u` begins with `t` and has the lines of `v` besides. -/
structure Continues (u t v : Toolpath) : Prop where
  segments : t.segments <+: u.segments
  movementCount : t.segments.length ≤ u.segments.length
  arcCount : t.arcCount ≤ u.arcCount
  lineCount : u.lineCount = t.lineCount + v.lineCount

/-- **Reading is append-only.** When a text is put behind whole lines, lenient reading gives the
segments of these lines first and counts all lines, and strict reading fails for them as it did
before. What follows depends on the state alone that the lines leave: behind other lines that leave
the head at the same place in the same mode, the same segments follow. -/
theorem continues_of_append (h : EndsLine first) (second : List Char) :
    (∃ t v u, ofText? false first = .ok t ∧ ofText? false second = .ok v ∧
      ofText? false (first ++ second) = .ok u ∧ u.Continues t v) ∧
    (∀ e, ofText? true first = .error e → ofText? true (first ++ second) = .error e) ∧
    ∀ other t t', EndsLine other → ofText? false first = .ok t → ofText? false other = .ok t' →
      t.state = t'.state →
      ∃ u u' later, ofText? false (first ++ second) = .ok u ∧
        ofText? false (other ++ second) = .ok u' ∧
        u.segments = t.segments ++ later ∧ u'.segments = t'.segments ++ later := by
  refine ⟨?_, fun e he ↦ ofText?_append_eq_error h he second, ?_⟩
  · obtain ⟨t, ht⟩ := exists_ofText?_false first
    obtain ⟨v, hv⟩ := exists_ofText?_false second
    obtain ⟨later, u, -, hu, hsegments, harcs⟩ := exists_resume?_of_ofText? h ht second
    have hprefix : t.segments <+: u.segments := ⟨_, hsegments.symm⟩
    refine ⟨t, v, u, ht, hv, hu, hprefix, hprefix.length_le, ?_, ?_⟩
    · rw [harcs]
      exact Nat.le_add_right _ _
    · rw [(traces_of_ofText? hu).1.lineCount, lines_append h, List.length_append,
        (traces_of_ofText? ht).1.lineCount, (traces_of_ofText? hv).1.lineCount]
  · intro other t t' hother ht ht' hstate
    obtain ⟨later, u, hlater, hu, hsegments, -⟩ := exists_resume?_of_ofText? h ht second
    obtain ⟨later', u', hlater', hu', hsegments', -⟩ := exists_resume?_of_ofText? hother ht' second
    rw [hstate, hlater'] at hlater
    obtain rfl := Except.ok.inj hlater
    exact ⟨u, u', _, hu, hu', hsegments, hsegments'⟩

/-- Two ways to the same place and mode, one along an arc and with other line ends. -/
theorem continues_of_append_relativeText :
    ∃ t t' u u' later, EndsLine "G91\r\nG2 X1\u2028\n".toList ∧
      ofText? false "G91\r\nG2 X1\u2028\n".toList = .ok t ∧
      ofText? false "G1 X3\nG0 X1 ; back\nG91\n".toList = .ok t' ∧ t.state = t'.state ∧
      ofText? false ("G91\r\nG2 X1\u2028\n".toList ++ "G1 X2 Y1".toList) = .ok u ∧
      ofText? false ("G1 X3\nG0 X1 ; back\nG91\n".toList ++ "G1 X2 Y1".toList) = .ok u' ∧
      u.segments = t.segments ++ later ∧ u'.segments = t'.segments ++ later := by
  have hends : EndsLine "G91\r\nG2 X1\u2028\n".toList := by decide
  have hends' : EndsLine "G1 X3\nG0 X1 ; back\nG91\n".toList := by decide
  obtain ⟨t, ht⟩ := exists_ofText?_false "G91\r\nG2 X1\u2028\n".toList
  obtain ⟨t', ht'⟩ := exists_ofText?_false "G1 X3\nG0 X1 ; back\nG91\n".toList
  let parts (t : Toolpath) : Positioning × Float × Float × Float :=
    (t.state.positioning, t.state.position.x, t.state.position.y, t.state.position.z)
  have hparts : parts t = parts t' := by
    have hread : ((ofText? false "G91\r\nG2 X1\u2028\n".toList).toOption.map parts)
        = (ofText? false "G1 X3\nG0 X1 ; back\nG91\n".toList).toOption.map parts := by
      decide +kernel
    rw [ht, ht'] at hread
    exact Option.some.inj hread
  have hstate : t.state = t'.state := by
    simp only [parts, Prod.mk.injEq] at hparts
    obtain ⟨hmode, hx, hy, hz⟩ := hparts
    have hposition : t.state.position = t'.state.position := by
      rw [HeadPosition.mk.injEq]
      exact ⟨hx, hy, hz⟩
    rw [HeadState.mk.injEq]
    exact ⟨hmode, hposition⟩
  obtain ⟨u, u', later, hu, hu', hsegments, hsegments'⟩ :=
    (continues_of_append hends "G1 X2 Y1".toList).2.2 _ t t' hends' ht ht' hstate
  exact ⟨t, t', u, u', later, hends, ht, ht', hstate, hu, hu', hsegments, hsegments'⟩

end Toolpath

end Engraving
