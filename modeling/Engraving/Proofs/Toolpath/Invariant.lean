import Engraving.Proofs.Except
import Engraving.Proofs.Toolpath.LineReading
import Mathlib.Data.List.Induction

/-!
# The invariant of reading a toolpath

What a reader knows after some lines of a text is told by those lines alone: the segments are one
path from the origin to where the head is, with one segment for every line that holds a motion code,
and the mode is that of the last mode word. One line more does what its words say, `Toolpath.Step`,
and nothing else; the invariant is derived from that step by induction on the lines, the last line
coming last.
-/

namespace Engraving

/-- The segments lead from one place to another, each beginning where the one before ends. -/
def IsPath (p : Point Float) : List (Segment Float) → Point Float → Prop
  | [], q => p = q
  | segment :: rest, q => segment.start = p ∧ IsPath segment.finish rest q

theorem IsPath.concat {p q : Point Float} {segments : List (Segment Float)}
    (h : IsPath p segments q) {segment : Segment Float} (hstart : segment.start = q) :
    IsPath p (segments ++ [segment]) segment.finish := by
  induction segments generalizing p with
  | nil => exact ⟨hstart.trans h.symm, rfl⟩
  | cons first rest ih => exact ⟨h.1, ih h.2⟩

namespace Toolpath

/-- The toolpath of the lines of a text, or of the first of them. -/
def ofLines? (strict : Bool) (read : List (List Char)) : Except ProgramError Toolpath :=
  return (← read.foldlM (line strict) {}).inOrder

/-! ## One line -/

/-- What one line makes of the toolpath of the lines before it. -/
structure Step (t : Toolpath) (raw : List Char) (u : Toolpath) : Prop where
  lineCount : u.lineCount = t.lineCount + 1
  positioning : u.state.positioning = positioningAfter t.state.positioning (readWords raw)
  idle : lineMotion? raw = none →
    u.state.position = t.state.position ∧ u.segments = t.segments ∧ u.arcCount = t.arcCount
  /-- A line with a motion code moves every axis as its values say, and adds one segment. -/
  moved : ∀ motion, lineMotion? raw = some motion →
    u.state.position
      = ⟨arrive (isAbsoluteOn t.state.positioning raw) t.state.position.x
          (axisValues 'X' (readWords raw)),
        arrive (isAbsoluteOn t.state.positioning raw) t.state.position.y
          (axisValues 'Y' (readWords raw)),
        arrive (isAbsoluteOn t.state.positioning raw) t.state.position.z
          (axisValues 'Z' (readWords raw))⟩ ∧
      u.segments = t.segments ++
        [⟨t.state.position.point, u.state.position.point, decide (motion = .rapid)⟩] ∧
      u.arcCount = t.arcCount + if motion = .arc then 1 else 0

theorem step_of_line {strict : Bool} {t u : Toolpath} {raw : List Char}
    (h : t.line strict raw = .ok u) : t.inOrder.Step raw u.inOrder := by
  rw [line, HeadState.line_trim] at h
  cases hmotion : lineMotion? raw with
  | none =>
    simp only [hmotion] at h
    cases h
    split <;> exact ⟨rfl, rfl, fun _ ↦ ⟨rfl, rfl, rfl⟩, by simp [hmotion]⟩
  | some motion =>
    cases hbad : if strict then (readWords raw).find? Word.isBadCoordinate else none with
    | some word =>
      simp only [hmotion, hbad] at h
      cases h
    | none =>
      simp only [hmotion, hbad] at h
      cases h
      refine ⟨rfl, rfl, by simp [hmotion], ?_⟩
      rintro _ hsome
      obtain rfl := Option.some.inj (hmotion.symm.trans hsome)
      refine ⟨HeadPosition.follow_eq _ _ _, List.reverse_cons, ?_⟩
      cases motion <;> rfl

theorem exists_step_of_ofLines?_concat {strict : Bool} {read : List (List Char)} {raw : List Char}
    {u : Toolpath} (h : ofLines? strict (read ++ [raw]) = .ok u) :
    ∃ t, ofLines? strict read = .ok t ∧ t.Step raw u := by
  obtain ⟨v, hv, hu⟩ := bind_eq_ok_iff.mp h
  rw [List.foldlM_append] at hv
  obtain ⟨t, ht, hv⟩ := bind_eq_ok_iff.mp hv
  obtain ⟨v', hraw, hv'⟩ := bind_eq_ok_iff.mp hv
  cases hv'
  cases hu
  exact ⟨t.inOrder, bind_eq_ok_iff.mpr ⟨t, ht, rfl⟩, step_of_line hraw⟩

/-! ## Many lines -/

/-- What is known of a toolpath once some lines are read. -/
structure Traces (t : Toolpath) (read : List (List Char)) : Prop where
  lineCount : t.lineCount = read.length
  path : IsPath ⟨0, 0⟩ t.segments t.state.position.point
  /-- There is one segment for every line with a motion code, rapid if that code is. -/
  rapid : t.segments.map Segment.rapid
    = (read.filterMap lineMotion?).map fun motion ↦ decide (motion = .rapid)
  arcCount : t.arcCount = (read.filterMap lineMotion?).count .arc
  /-- The mode is that of the last mode word. -/
  positioning : t.state.positioning = positioningAfter .absolute (read.flatMap readWords)

theorem Traces.step {t u : Toolpath} {read : List (List Char)} {raw : List Char}
    (h : t.Traces read) (hstep : t.Step raw u) : u.Traces (read ++ [raw]) := by
  have hcount : u.lineCount = (read ++ [raw]).length := by
    rw [hstep.lineCount, h.lineCount, List.length_append, List.length_singleton]
  have hmode : u.state.positioning
      = positioningAfter .absolute ((read ++ [raw]).flatMap readWords) := by
    rw [hstep.positioning, h.positioning, ← positioningAfter_append, List.flatMap_append,
      List.flatMap_singleton]
  cases hmotion : lineMotion? raw with
  | none =>
    obtain ⟨hposition, hsegments, harcs⟩ := hstep.idle hmotion
    have hlines : (read ++ [raw]).filterMap lineMotion? = read.filterMap lineMotion? := by
      rw [List.filterMap_append, List.filterMap_cons_none hmotion, List.filterMap_nil,
        List.append_nil]
    refine ⟨hcount, ?_, ?_, ?_, hmode⟩
    · rw [hsegments, hposition]
      exact h.path
    · rw [hsegments, hlines]
      exact h.rapid
    · rw [harcs, hlines]
      exact h.arcCount
  | some motion =>
    obtain ⟨-, hsegments, harcs⟩ := hstep.moved motion hmotion
    have hlines : (read ++ [raw]).filterMap lineMotion?
        = read.filterMap lineMotion? ++ [motion] := by
      rw [List.filterMap_append, List.filterMap_cons_some hmotion, List.filterMap_nil]
    refine ⟨hcount, ?_, ?_, ?_, hmode⟩
    · rw [hsegments]
      exact h.path.concat rfl
    · rw [hsegments, hlines, List.map_append, List.map_append, h.rapid]
      rfl
    · rw [harcs, hlines, List.count_append, h.arcCount, List.count_singleton]
      cases motion <;> rfl

theorem traces_of_ofLines? {strict : Bool} {read : List (List Char)} {t : Toolpath}
    (h : ofLines? strict read = .ok t) : t.Traces read := by
  induction read using List.reverseRecOn generalizing t with
  | nil =>
    cases h
    exact ⟨rfl, rfl, rfl, rfl, rfl⟩
  | append_singleton read raw ih =>
    obtain ⟨u, hu, hstep⟩ := exists_step_of_ofLines?_concat h
    exact (ih hu).step hstep

/-- The segments of the first lines are the first segments. -/
theorem exists_ofLines?_of_append {strict : Bool} {read rest : List (List Char)} {t : Toolpath}
    (h : ofLines? strict (read ++ rest) = .ok t) :
    ∃ u, ofLines? strict read = .ok u ∧ u.segments <+: t.segments := by
  induction rest using List.reverseRecOn generalizing t with
  | nil => exact ⟨t, by rwa [List.append_nil] at h, List.prefix_rfl⟩
  | append_singleton rest raw ih =>
    rw [← List.append_assoc] at h
    obtain ⟨v, hv, hstep⟩ := exists_step_of_ofLines?_concat h
    obtain ⟨u, hu, hprefix⟩ := ih hv
    refine ⟨u, hu, hprefix.trans ?_⟩
    cases hmotion : lineMotion? raw with
    | none => exact (hstep.idle hmotion).2.1 ▸ List.prefix_rfl
    | some motion =>
      rw [(hstep.moved motion hmotion).2.1]
      exact List.prefix_append _ _

/-- **The invariant of reading.** When a text is read, strictly or not, every prefix of its lines is
read too, as the first part of the same path; what is known after the prefix is told by its lines,
and the line that follows does what its words say. -/
theorem traces_of_ofText? {strict : Bool} {text : List Char} {t : Toolpath}
    (h : ofText? strict text = .ok t) :
    t.Traces (lines text) ∧
    ∀ read rest, lines text = read ++ rest →
      ∃ u, ofLines? strict read = .ok u ∧ u.Traces read ∧ u.segments <+: t.segments ∧
        ∀ raw ∈ rest.head?, ∃ v, ofLines? strict (read ++ [raw]) = .ok v ∧ u.Step raw v := by
  have hlines : ofLines? strict (lines text) = .ok t := h
  refine ⟨traces_of_ofLines? hlines, fun read rest hsplit ↦ ?_⟩
  rw [hsplit] at hlines
  obtain ⟨u, hu, hprefix⟩ := exists_ofLines?_of_append hlines
  refine ⟨u, hu, traces_of_ofLines? hu, hprefix, fun raw hraw ↦ ?_⟩
  obtain ⟨rest, rfl⟩ := List.head?_eq_some_iff.mp hraw
  have hnext : ofLines? strict ((read ++ [raw]) ++ rest) = .ok t := by
    rwa [List.append_assoc, List.singleton_append]
  obtain ⟨v, hv, -⟩ := exists_ofLines?_of_append hnext
  obtain ⟨u', hu', hstep⟩ := exists_step_of_ofLines?_concat hv
  obtain rfl := Except.ok.inj (hu.symm.trans hu')
  exact ⟨v, hv, hstep⟩

/-- A text in which the mode changes behind coordinates and for one line only. -/
def mixedText : List Char :=
  "G91\nG1 X1.5 X2 Yq\n; G1 X7\nM5 X9\ng53 g2 x-1\nG0 Z1 Y2 G90".toList

theorem traces_of_ofText?_mixedText :
    ∃ t, ofText? false mixedText = .ok t ∧ t.Traces (lines mixedText) ∧
      t.segments.map Segment.rapid = [false, false, true] ∧ t.arcCount = 1 ∧
      t.state.positioning = .absolute := by
  have hok : (ofText? false mixedText).isOk = true := by decide +kernel
  cases h : ofText? false mixedText with
  | error e =>
    rw [h] at hok
    cases hok
  | ok t =>
    have ht := (traces_of_ofText? h).1
    have hmotions : (lines mixedText).filterMap lineMotion? = [.feed, .arc, .rapid] := by
      decide +kernel
    refine ⟨t, rfl, ht, ?_, ?_, ?_⟩
    · rw [ht.rapid, hmotions]
      rfl
    · rw [ht.arcCount, hmotions]
      rfl
    · rw [ht.positioning]
      decide +kernel

end Toolpath

end Engraving
