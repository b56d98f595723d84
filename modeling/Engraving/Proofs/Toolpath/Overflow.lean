import Engraving.Proofs.Toolpath.ExactPath

/-!
# Coordinates beyond the finite floats

A word whose number is not finite moves nothing, so every number that a coordinate is set to is
finite, and so is every one that is added to it. The sums, though, are not looked at. A coordinate
leaves the finite floats exactly when the exact sum of two floats lies half a step or more beyond
the greatest of them, and it stays infinite as long as it is only added to. It never becomes
undefined, since nothing infinite is ever added.

One line takes finite coordinates to finite ones unless it overflows, `Toolpath.Step.isFinite_iff`,
and for a text this is said of each of its lines.
-/

namespace Engraving

/-! ## Sums -/

variable {x y old : Float} {a p q : ℚ}

theorem IsRounded.isFinite_iff (h : IsRounded x q) :
    (Exact.ofFloat x).isFinite = true ↔ |q| < 2 ^ 1024 - 2 ^ 970 := by
  rw [← not_le, ← two_pow_le_abs_nearestBinary_iff, not_le]
  rcases h with ⟨hsmall, hvalue⟩ | ⟨hbig, hinfinite⟩
  · exact iff_of_true (isFinite_iff_denotes.mpr ⟨_, hvalue⟩) hsmall
  · rw [hinfinite]
    exact iff_of_false Bool.false_ne_true (not_lt.mpr hbig)

/-- Two values have a sum that is rounded to an infinity. -/
def SumOverflows (old : Float) (values : List Float) : Prop :=
  ∃ before value after p v, values = before ++ value :: after ∧
    Denotes (before.foldl (· + ·) old) p ∧ Denotes value v ∧ 2 ^ 1024 - 2 ^ 970 ≤ |p + v|

theorem not_sumOverflows_nil : ¬ SumOverflows old [] := by
  rintro ⟨before, value, after, p, v, hsplit, -⟩
  cases before <;> cases hsplit

theorem sumOverflows_cons_iff {value : Float} {rest : List Float} (hold : Denotes old p)
    (hvalue : Denotes value q) :
    SumOverflows old (value :: rest)
      ↔ 2 ^ 1024 - 2 ^ 970 ≤ |p + q| ∨ SumOverflows (old + value) rest := by
  constructor
  · rintro ⟨before, v, after, a, b, hsplit, ha, hb, hbig⟩
    cases before with
    | nil =>
      cases hsplit
      rw [hold.unique ha, hvalue.unique hb]
      exact Or.inl hbig
    | cons w before =>
      cases hsplit
      exact Or.inr ⟨before, v, after, a, b, rfl, ha, hb, hbig⟩
  · rintro (hbig | ⟨before, v, after, a, b, rfl, ha, hb, hbig⟩)
    · exact ⟨[], value, rest, p, q, rfl, hold, hvalue, hbig⟩
    · exact ⟨value :: before, v, after, a, b, rfl, ha, hb, hbig⟩

theorem infinite_foldl_add {negative : Bool} {values : List Float}
    (hvalues : ∀ v ∈ values, ∃ q, Denotes v q) (h : Exact.ofFloat old = .infinite negative) :
    Exact.ofFloat (values.foldl (· + ·) old) = .infinite negative := by
  induction values generalizing old with
  | nil => exact h
  | cons value rest ih =>
    obtain ⟨⟨q, hq⟩, hrest⟩ := List.forall_mem_cons.mp hvalues
    exact ih hrest (infinite_add h hq)

/-- Adding finite values stays finite exactly when no sum overflows. -/
theorem isFinite_foldl_add_iff {values : List Float} (hvalues : ∀ v ∈ values, ∃ q, Denotes v q)
    (hold : Denotes old p) :
    (Exact.ofFloat (values.foldl (· + ·) old)).isFinite = true ↔ ¬ SumOverflows old values := by
  induction values generalizing old p with
  | nil => exact iff_of_true (isFinite_iff_denotes.mpr ⟨p, hold⟩) not_sumOverflows_nil
  | cons value rest ih =>
    obtain ⟨⟨q, hq⟩, hrest⟩ := List.forall_mem_cons.mp hvalues
    have hsum := isRounded_add hold hq
    rw [sumOverflows_cons_iff hold hq, not_or, not_le, ← hsum.isFinite_iff, List.foldl_cons]
    rcases hsum with ⟨-, hvalue⟩ | ⟨-, hinfinite⟩
    · rw [ih hrest hvalue, and_iff_right (isFinite_iff_denotes.mpr ⟨_, hvalue⟩)]
    · rw [infinite_foldl_add hrest hinfinite, hinfinite]
      exact iff_of_false Bool.false_ne_true fun h ↦ Bool.false_ne_true h.1

theorem isDefined_foldl_add {values : List Float} (hvalues : ∀ v ∈ values, ∃ q, Denotes v q)
    (hold : IsDefined old) : IsDefined (values.foldl (· + ·) old) := by
  induction values generalizing old with
  | nil => exact hold
  | cons value rest ih =>
    obtain ⟨⟨q, hq⟩, hrest⟩ := List.forall_mem_cons.mp hvalues
    exact ih hrest ((isDefined_add_iff hq).mpr hold)

/-! ## One line -/

/-- The numbers that words give for an axis are finite. -/
theorem exists_denotes_of_mem_axisValues {letter : Char} {words : List Word} {value : Float}
    (h : value ∈ axisValues letter words) : ∃ q, Denotes value q := by
  obtain ⟨w, -, hw⟩ := List.mem_filterMap.mp h
  exact isFinite_iff_denotes.mp (Option.filter_eq_some_iff.mp hw).2

/-- Where values are places, a coordinate ends at one of them or stays. -/
theorem arrive_true_mem (old : Float) (values : List Float) :
    arrive true old values = old ∨ arrive true old values ∈ values := by
  rw [arrive, if_pos rfl]
  cases h : values.getLast? with
  | none => exact Or.inl rfl
  | some value => exact Or.inr (List.mem_of_getLast? h)

/-- The line moves the head by its coordinates, and one of them takes the head out of the finite
floats in the plane. -/
def HeadState.Overflows (h : HeadState) (raw : List Char) : Prop :=
  (lineMotion? raw).isSome = true ∧ isAbsoluteOn h.positioning raw = false ∧
    (SumOverflows h.position.x (axisValues 'X' (readWords raw)) ∨
      SumOverflows h.position.y (axisValues 'Y' (readWords raw)))

/-- Both coordinates are finite or infinite. -/
def Point.IsDefined (p : Point Float) : Prop := Engraving.IsDefined p.x ∧ Engraving.IsDefined p.y

theorem isDefined_arrive (absolute : Bool) {letter : Char} {words : List Word}
    (h : IsDefined old) : IsDefined (arrive absolute old (axisValues letter words)) := by
  cases absolute with
  | false => exact isDefined_foldl_add (fun _ ↦ exists_denotes_of_mem_axisValues) h
  | true =>
    rcases arrive_true_mem old (axisValues letter words) with heq | hmem
    · rwa [heq]
    · obtain ⟨q, hq⟩ := exists_denotes_of_mem_axisValues hmem
      exact hq.isDefined

theorem isFinite_arrive_iff (absolute : Bool) {letter : Char} {words : List Word}
    (h : Denotes old p) :
    (Exact.ofFloat (arrive absolute old (axisValues letter words))).isFinite = true ↔
      ¬ (absolute = false ∧ SumOverflows old (axisValues letter words)) := by
  cases absolute with
  | false =>
    rw [and_iff_right rfl]
    exact isFinite_foldl_add_iff (fun _ ↦ exists_denotes_of_mem_axisValues) h
  | true =>
    refine iff_of_true ?_ (fun h ↦ by cases h.1)
    rcases arrive_true_mem old (axisValues letter words) with heq | hmem
    · rw [heq]
      exact isFinite_iff_denotes.mpr ⟨p, h⟩
    · exact isFinite_iff_denotes.mpr (exists_denotes_of_mem_axisValues hmem)

theorem IsPath.isFinite {p q : Point Float} {segments : List (Segment Float)}
    (h : IsPath p segments q) (hp : p.IsFinite) (hfinite : ∀ s ∈ segments, s.IsFinite) :
    q.IsFinite := by
  induction segments generalizing p with
  | nil => exact h ▸ hp
  | cons s rest ih =>
    obtain ⟨hs, hrest⟩ := List.forall_mem_cons.mp hfinite
    exact ih h.2 hs.2 hrest

namespace Toolpath

variable {t u : Toolpath} {raw : List Char} {read : List (List Char)} {strict : Bool}

theorem Traces.isFinite_position (h : t.Traces read) (hfinite : ∀ s ∈ t.segments, s.IsFinite) :
    t.state.position.point.IsFinite :=
  h.path.isFinite (Point.isFinite_iff_denotes.mpr ⟨_, Point.denotes_origin⟩) hfinite

/-- A line keeps all coordinates finite unless it overflows. -/
theorem Step.isFinite_iff (hstep : t.Step raw u) (h : t.Traces read) :
    (∀ s ∈ u.segments, s.IsFinite) ↔
      (∀ s ∈ t.segments, s.IsFinite) ∧ ¬ t.state.Overflows raw := by
  rw [HeadState.Overflows]
  cases hmotion : lineMotion? raw with
  | none =>
    rw [(hstep.idle hmotion).2.1]
    exact (and_iff_left fun h ↦ nomatch h.1).symm
  | some motion =>
    obtain ⟨htarget, hsegments, -⟩ := hstep.moved motion hmotion
    rw [hsegments, List.forall_mem_append, List.forall_mem_singleton, Option.isSome_some,
      eq_self_iff_true, true_and]
    refine and_congr_right fun hfinite ↦ ?_
    -- The new segment begins where a finite path ends.
    have hposition := h.isFinite_position hfinite
    obtain ⟨q, hx, hy⟩ := Point.isFinite_iff_denotes.mp hposition
    change Denotes t.state.position.x q.x at hx
    change Denotes t.state.position.y q.y at hy
    rw [Segment.IsFinite, and_iff_right hposition, and_or_left, not_or,
      ← isFinite_arrive_iff _ hx, ← isFinite_arrive_iff _ hy, htarget]
    rfl

theorem Step.isDefined (hstep : t.Step raw u) (hposition : t.state.position.point.IsDefined)
    (h : ∀ s ∈ t.segments, s.start.IsDefined ∧ s.finish.IsDefined) :
    u.state.position.point.IsDefined ∧ ∀ s ∈ u.segments, s.start.IsDefined ∧ s.finish.IsDefined := by
  cases hmotion : lineMotion? raw with
  | none =>
    obtain ⟨hstill, hsegments, -⟩ := hstep.idle hmotion
    rw [hstill, hsegments]
    exact ⟨hposition, h⟩
  | some motion =>
    obtain ⟨htarget, hsegments, -⟩ := hstep.moved motion hmotion
    have hfinish : u.state.position.point.IsDefined := by
      rw [htarget]
      exact ⟨isDefined_arrive _ hposition.1, isDefined_arrive _ hposition.2⟩
    rw [hsegments, List.forall_mem_append, List.forall_mem_singleton]
    exact ⟨hfinish, h, hposition, hfinish⟩

/-! ## Many lines -/

theorem isFinite_segments_iff (h : ofLines? strict read = .ok t) :
    (∀ s ∈ t.segments, s.IsFinite) ↔ ∀ before raw, before ++ [raw] <+: read →
      ∀ u, ofLines? strict before = .ok u → ¬ u.state.Overflows raw := by
  induction read using List.reverseRecOn generalizing t with
  | nil =>
    cases h
    refine iff_of_true (fun _ hs ↦ nomatch hs) fun before raw hfront ↦ ?_
    exact absurd (List.prefix_nil.mp hfront) (by simp)
  | append_singleton read raw ih =>
    obtain ⟨u, hu, hstep⟩ := exists_step_of_ofLines?_concat h
    rw [hstep.isFinite_iff (traces_of_ofLines? hu), ih hu]
    constructor
    · rintro ⟨hlines, hlast⟩ before raw' hfront v hv
      rcases List.prefix_concat_iff.mp hfront with heq | hfront
      · obtain ⟨rfl, hraw⟩ := List.append_inj' heq rfl
        cases hraw
        obtain rfl := Except.ok.inj (hu.symm.trans hv)
        exact hlast
      · exact hlines before raw' hfront v hv
    · intro hlines
      refine ⟨fun before raw' hfront ↦ ?_, hlines read raw List.prefix_rfl u hu⟩
      exact hlines before raw' (hfront.trans (List.prefix_append _ _))

theorem isDefined_segments (h : ofLines? strict read = .ok t) :
    t.state.position.point.IsDefined ∧ ∀ s ∈ t.segments, s.start.IsDefined ∧ s.finish.IsDefined := by
  induction read using List.reverseRecOn generalizing t with
  | nil =>
    cases h
    exact ⟨⟨denotes_zero.isDefined, denotes_zero.isDefined⟩, fun _ hs ↦ nomatch hs⟩
  | append_singleton read raw ih =>
    obtain ⟨u, hu, hstep⟩ := exists_step_of_ofLines?_concat h
    exact hstep.isDefined (ih hu).1 (ih hu).2

/-- The bounds of a finite path are finite and ordered, for they hold the origin. -/
theorem exists_denotes_bounds {text : List Char} (h : ofText? strict text = .ok t)
    (hfinite : ∀ s ∈ t.segments, s.IsFinite) :
    ∃ b : Bounds ℚ, t.bounds.Denotes b ∧ b.minX ≤ b.maxX ∧ b.minY ≤ b.maxY := by
  obtain ⟨exact, hexact⟩ := exists_forall₂_denotes hfinite
  obtain ⟨hleft, hright, hlower, hupper⟩ := Bounds.contains_iff.mp (contains_origin h hexact)
  exact ⟨_, Bounds.denotes_ofSegments hexact, hleft.trans hright, hlower.trans hupper⟩

end Toolpath

end Engraving
