import Engraving.Proofs.Toolpath.Overflow

/-!
# What the bounds of a toolpath enclose

Coordinates may be infinite, so this is about floats as they are and not about the rationals that
finite ones stand for. A rectangle is the least one around some places if it holds them all and
each of its sides goes through one of them; the rest follows from these two facts. Any other
rectangle that holds the places encloses it, so that two least rectangles around the same places
differ in the signs of zeros at most, whichever way they were come by: from segments in another
order, or from two parts whose rectangles are joined.
-/

namespace Engraving

/-- The place is an end of one of the segments. -/
def IsEnd {α : Type} (segments : List (Segment α)) (p : Point α) : Prop :=
  ∃ s ∈ segments, p = s.start ∨ p = s.finish

theorem isEnd_append_iff {α : Type} {xs ys : List (Segment α)} {p : Point α} :
    IsEnd (xs ++ ys) p ↔ IsEnd xs p ∨ IsEnd ys p := by
  simp only [IsEnd, List.mem_append, or_and_right, exists_or]

def Segment.IsDefined (s : Segment Float) : Prop := s.start.IsDefined ∧ s.finish.IsDefined

variable {xs ys : List (Segment Float)} {p q : Point Float}

theorem Point.IsFinite.isDefined (h : p.IsFinite) : p.IsDefined := by
  obtain ⟨_, hx, hy⟩ := Point.isFinite_iff_denotes.mp h
  exact ⟨hx.isDefined, hy.isDefined⟩

theorem Segment.IsFinite.isDefined {s : Segment Float} (h : s.IsFinite) : s.IsDefined :=
  ⟨h.1.isDefined, h.2.isDefined⟩

theorem IsEnd.isDefined (h : IsEnd xs p) (hxs : ∀ s ∈ xs, s.IsDefined) : p.IsDefined := by
  obtain ⟨s, hs, rfl | rfl⟩ := h
  · exact (hxs s hs).1
  · exact (hxs s hs).2

namespace Bounds

variable {b c r : Bounds Float} {Q R : Point Float → Prop}

/-! ## Rectangles with defined sides -/

/-- All sides are finite or infinite. -/
structure IsDefined (b : Bounds Float) : Prop where
  minX : Engraving.IsDefined b.minX
  maxX : Engraving.IsDefined b.maxX
  minY : Engraving.IsDefined b.minY
  maxY : Engraving.IsDefined b.maxY

theorem isDefined_single (h : p.IsDefined) : (single p).IsDefined := ⟨h.1, h.1, h.2, h.2⟩

theorem IsDefined.join (hb : b.IsDefined) (hc : c.IsDefined) : (b.join c).IsDefined :=
  ⟨hb.minX.lesser hc.minX, hb.maxX.greater hc.maxX, hb.minY.lesser hc.minY,
    hb.maxY.greater hc.maxY⟩

theorem Touches.isDefined (h : b.Touches Q) (hQ : ∀ p, Q p → p.IsDefined) : b.IsDefined := by
  obtain ⟨left, hleft, hminX⟩ := h.minX
  obtain ⟨right, hright, hmaxX⟩ := h.maxX
  obtain ⟨low, hlow, hminY⟩ := h.minY
  obtain ⟨high, hhigh, hmaxY⟩ := h.maxY
  exact ⟨hminX ▸ (hQ left hleft).1, hmaxX ▸ (hQ right hright).1, hminY ▸ (hQ low hlow).2,
    hmaxY ▸ (hQ high hhigh).2⟩

theorem IsDefined.contains_iff (h : b.IsDefined) (hp : p.IsDefined) :
    b.contains p = true ↔ rank b.minX ≤ rank p.x ∧ rank p.x ≤ rank b.maxX ∧
      rank b.minY ≤ rank p.y ∧ rank p.y ≤ rank b.maxY := by
  rw [Bounds.contains_iff]
  exact and_congr (h.minX.le_iff hp.1) <| and_congr (hp.1.le_iff h.maxX) <|
    and_congr (h.minY.le_iff hp.2) (hp.2.le_iff h.maxY)

theorem contains_join (hb : b.IsDefined) (hc : c.IsDefined) (hp : p.IsDefined)
    (h : b.contains p = true ∨ c.contains p = true) : (b.join c).contains p = true := by
  rw [(hb.join hc).contains_iff hp, Bounds.join, hb.minX.rank_lesser hc.minX,
    hb.maxX.rank_greater hc.maxX, hb.minY.rank_lesser hc.minY, hb.maxY.rank_greater hc.maxY]
  rcases h with h | h
  · obtain ⟨hleft, hright, hlower, hupper⟩ := (hb.contains_iff hp).mp h
    exact ⟨min_le_of_left_le hleft, le_max_of_le_left hright, min_le_of_left_le hlower,
      le_max_of_le_left hupper⟩
  · obtain ⟨hleft, hright, hlower, hupper⟩ := (hc.contains_iff hp).mp h
    exact ⟨min_le_of_right_le hleft, le_max_of_le_right hright, min_le_of_right_le hlower,
      le_max_of_le_right hupper⟩

theorem contains_single (hp : p.IsDefined) : (single p).contains p = true :=
  ((isDefined_single hp).contains_iff hp).mpr ⟨le_rfl, le_rfl, le_rfl, le_rfl⟩

/-- A rectangle that is made larger to hold some places holds them, and what it held before. -/
theorem contains_foldl_extend (h : b.IsDefined) {points : List (Point Float)}
    (hpoints : ∀ p ∈ points, p.IsDefined) (hq : q.IsDefined)
    (hmem : q ∈ points ∨ b.contains q = true) : (points.foldl extend b).contains q = true := by
  induction points generalizing b with
  | nil => exact hmem.resolve_left List.not_mem_nil
  | cons p rest ih =>
    obtain ⟨hp, hrest⟩ := List.forall_mem_cons.mp hpoints
    have hp' := isDefined_single hp
    rw [List.foldl_cons, extend_eq_join]
    refine ih (h.join hp') hrest ?_
    rw [List.mem_cons, or_assoc, or_left_comm] at hmem
    refine hmem.imp_right fun hmem ↦ contains_join h hp' hq (hmem.symm.imp_right ?_)
    rintro rfl
    exact contains_single hq

/-! ## Least rectangles -/

/-- The rectangle holds the places that satisfy `Q`, each of its sides goes through one of them,
and so it lies in every rectangle that holds them. -/
structure IsLeast (b : Bounds Float) (Q : Point Float → Prop) : Prop where
  contains : ∀ p, Q p → b.contains p = true
  touches : b.Touches Q
  encloses : ∀ r : Bounds Float, (∀ p, Q p → r.contains p = true) → r.Encloses b

theorem isLeast_of_touches (hcontains : ∀ p, Q p → b.contains p = true) (h : b.Touches Q) :
    b.IsLeast Q :=
  ⟨hcontains, h, fun _ hr ↦ h.encloses hr⟩

theorem isLeast_ofPoints? {points : List (Point Float)} (h : ofPoints? points = some b)
    (hpoints : ∀ p ∈ points, p.IsDefined) : b.IsLeast (· ∈ points) := by
  refine isLeast_of_touches (fun q hq ↦ ?_) (touches_of_ofPoints? h)
  match points with
  | p :: rest =>
    cases h
    obtain ⟨hp, hrest⟩ := List.forall_mem_cons.mp hpoints
    have hdefined := hpoints q hq
    refine contains_foldl_extend (isDefined_single hp) hrest hdefined ?_
    refine (List.mem_cons.mp hq).symm.imp_right ?_
    rintro rfl
    exact contains_single hdefined

theorem IsLeast.congr (h : b.IsLeast Q) (hQ : ∀ p, Q p ↔ R p) : b.IsLeast R :=
  isLeast_of_touches (fun p hp ↦ h.contains p ((hQ p).mpr hp)) (h.touches.mono fun p ↦ (hQ p).mp)

/-- The bounds of a path are the least rectangle around the ends of its segments. -/
theorem isLeast_isEnd (hne : xs ≠ []) (h : ∀ s ∈ xs, s.IsDefined) :
    (ofSegments xs).IsLeast (IsEnd xs) := by
  have hmem (p : Point Float) : (p ∈ xs.flatMap fun s ↦ [s.start, s.finish]) ↔ IsEnd xs p := by
    simp only [IsEnd, List.mem_flatMap, List.mem_pair]
  have hbounds : ofPoints? (xs.flatMap fun s ↦ [s.start, s.finish]) = some (ofSegments xs) := by
    match xs, hne with
    | _ :: _, _ => rfl
  exact (isLeast_ofPoints? hbounds fun p hp ↦ ((hmem p).mp hp).isDefined h).congr hmem

/-- The sides are equal as numbers: where one is zero, so is the other, of whichever sign. -/
structure IsSame (b c : Bounds Float) : Prop where
  minX : (b.minX == c.minX) = true
  maxX : (b.maxX == c.maxX) = true
  minY : (b.minY == c.minY) = true
  maxY : (b.maxY == c.maxY) = true

/-- Least rectangles around the same places enclose each other. -/
theorem IsLeast.isSame (hb : b.IsLeast Q) (hc : c.IsLeast Q) (hQ : ∀ p, Q p → p.IsDefined) :
    b.IsSame c := by
  have hdefined := hb.touches.isDefined hQ
  have hdefined' := hc.touches.isDefined hQ
  have hsame {x y : Float} (hx : Engraving.IsDefined x) (hy : Engraving.IsDefined y) (hxy : x ≤ y)
      (hyx : y ≤ x) : (x == y) = true :=
    (hx.beq_iff hy).mpr (le_antisymm ((hx.le_iff hy).mp hxy) ((hy.le_iff hx).mp hyx))
  obtain ⟨hminX, hmaxX, hminY, hmaxY⟩ := hb.encloses c hc.contains
  obtain ⟨hminX', hmaxX', hminY', hmaxY'⟩ := hc.encloses b hb.contains
  exact ⟨hsame hdefined.minX hdefined'.minX hminX' hminX,
    hsame hdefined.maxX hdefined'.maxX hmaxX hmaxX',
    hsame hdefined.minY hdefined'.minY hminY' hminY,
    hsame hdefined.maxY hdefined'.maxY hmaxY hmaxY'⟩

/-- The join of least rectangles is the least one around the places of both. -/
theorem IsLeast.join (hb : b.IsLeast Q) (hc : c.IsLeast R) (hQ : ∀ p, Q p → p.IsDefined)
    (hR : ∀ p, R p → p.IsDefined) : (b.join c).IsLeast fun p ↦ Q p ∨ R p := by
  have hdefined := hb.touches.isDefined hQ
  have hdefined' := hc.touches.isDefined hR
  refine isLeast_of_touches (fun p hp ↦ ?_) ?_
  · refine contains_join hdefined hdefined' (hp.elim (hQ p) (hR p)) ?_
    exact hp.imp (hb.contains p) (hc.contains p)
  · exact (hb.touches.mono fun _ ↦ Or.inl).join (hc.touches.mono fun _ ↦ Or.inr)

end Bounds

/-! ## The bounds of programs -/

/-- The origin lies in the bounds of every path that is read: a path begins there, and the bounds
that stand for those of no path hold it. -/
theorem Toolpath.contains_origin_bounds {strict : Bool} {text : List Char} {t : Toolpath}
    (h : ofText? strict text = .ok t) : t.bounds.contains ⟨0, 0⟩ = true := by
  have hlines : ofLines? strict (lines text) = .ok t := h
  have hdefined := (isDefined_segments hlines).2
  have hpath := (traces_of_ofLines? hlines).path
  rw [bounds]
  generalize t.segments = segments at hdefined hpath
  match segments with
  | [] => decide +kernel
  | s :: rest =>
    have hend : IsEnd (s :: rest) ⟨0, 0⟩ := ⟨s, List.mem_cons_self, Or.inl hpath.1.symm⟩
    exact (Bounds.isLeast_isEnd (List.cons_ne_nil s rest) hdefined).contains _ hend

/-- **The bounds are the least rectangle.** The bounds of segments hold all ends of the segments, go
through ends on all sides, and lie in every rectangle that holds the ends. The bounds of two parts
of a path join to those of the whole; the order of the segments does not matter, and more segments
never make the bounds smaller. So it is as long as the segments are there and their coordinates are
numbers, finite or not. The bounds of a program hold the origin. -/
theorem isLeast_ofSegments :
    (∀ xs : List (Segment Float), xs ≠ [] → (∀ s ∈ xs, s.IsDefined) →
      (Bounds.ofSegments xs).IsLeast (IsEnd xs) ∧
      (∀ ys, ys ≠ [] → (∀ s ∈ ys, s.IsDefined) → (Bounds.ofSegments (xs ++ ys)).IsSame
        ((Bounds.ofSegments xs).join (Bounds.ofSegments ys))) ∧
      (∀ ys, ys.Perm xs → (Bounds.ofSegments ys).IsSame (Bounds.ofSegments xs)) ∧
      ∀ ys, xs ⊆ ys → (∀ s ∈ ys, s.IsDefined) →
        (Bounds.ofSegments ys).Encloses (Bounds.ofSegments xs)) ∧
    ∀ (strict : Bool) (text : List Char) (t : Toolpath), Toolpath.ofText? strict text = .ok t →
      t.bounds.contains ⟨0, 0⟩ = true := by
  refine ⟨fun xs hne hxs ↦ ?_, fun _ _ _ ↦ Toolpath.contains_origin_bounds⟩
  have hleast := Bounds.isLeast_isEnd hne hxs
  refine ⟨hleast, fun ys hne' hys ↦ ?_, fun ys hperm ↦ ?_, fun ys hsubset hys ↦ ?_⟩
  · have hboth : ∀ s ∈ xs ++ ys, s.IsDefined := List.forall_mem_append.mpr ⟨hxs, hys⟩
    have hwhole := Bounds.isLeast_isEnd (List.append_ne_nil_of_left_ne_nil hne ys) hboth
    have hjoin := hleast.join (Bounds.isLeast_isEnd hne' hys) (fun _ hp ↦ hp.isDefined hxs)
      fun _ hp ↦ hp.isDefined hys
    exact hwhole.isSame (hjoin.congr fun _ ↦ isEnd_append_iff.symm) fun _ hp ↦ hp.isDefined hboth
  · have hys : ∀ s ∈ ys, s.IsDefined := fun s hs ↦ hxs s (hperm.mem_iff.mp hs)
    have hne' : ys ≠ [] := fun hnil ↦ hne (List.nil_perm.mp (hnil ▸ hperm))
    have hends (p : Point Float) : IsEnd xs p ↔ IsEnd ys p := by
      simp only [IsEnd, hperm.mem_iff]
    have hleast' := Bounds.isLeast_isEnd hne' hys
    exact hleast'.isSame (hleast.congr hends) fun _ hp ↦ hp.isDefined hys
  · obtain ⟨first, hfirst⟩ := List.exists_mem_of_ne_nil xs hne
    have hne' : ys ≠ [] := List.ne_nil_of_mem (hsubset hfirst)
    refine hleast.encloses _ fun p ⟨s, hs, hp⟩ ↦ ?_
    exact (Bounds.isLeast_isEnd hne' hys).contains p ⟨s, hsubset hs, hp⟩

/-- A text with a move to the left. -/
def moveLeftText : List Char := "G1 X-5 Y2".toList

/-- The first of two moves goes up to the right, and the second one down to the left. -/
theorem isLeast_ofSegments_zigzag :
    let up : List (Segment Float) := [⟨⟨-5, 2⟩, ⟨3, 8⟩, false⟩]
    let down : List (Segment Float) := [⟨⟨3, 8⟩, ⟨1, -4⟩, true⟩]
    (up ≠ [] ∧ (∀ s ∈ up, s.IsDefined) ∧ down ≠ [] ∧ ∀ s ∈ down, s.IsDefined) ∧
      (Bounds.ofSegments up).IsLeast (IsEnd up) ∧
      (Bounds.ofSegments (up ++ down)).IsSame
        ((Bounds.ofSegments up).join (Bounds.ofSegments down)) ∧
      (Bounds.ofSegments (down ++ up)).IsSame (Bounds.ofSegments (up ++ down)) ∧
      (Bounds.ofSegments (up ++ down)).Encloses (Bounds.ofSegments up) ∧
      ∃ t, Toolpath.ofText? false moveLeftText = .ok t ∧ t.segments ≠ [] ∧
        t.bounds.contains ⟨0, 0⟩ = true := by
  intro up down
  have hup : ∀ s ∈ up, s.IsFinite := by decide +kernel
  have hdown : ∀ s ∈ down, s.IsFinite := by decide +kernel
  have hup' : ∀ s ∈ up, s.IsDefined := fun s hs ↦ (hup s hs).isDefined
  have hdown' : ∀ s ∈ down, s.IsDefined := fun s hs ↦ (hdown s hs).isDefined
  have hboth : ∀ s ∈ up ++ down, s.IsDefined := List.forall_mem_append.mpr ⟨hup', hdown'⟩
  obtain ⟨hleast, hjoin, -, hgrow⟩ := isLeast_ofSegments.1 up (by decide) hup'
  obtain ⟨-, -, hperm, -⟩ := isLeast_ofSegments.1 (up ++ down) (by decide) hboth
  refine ⟨⟨by decide, hup', by decide, hdown'⟩, hleast, hjoin down (by decide) hdown',
    hperm (down ++ up) List.perm_append_comm, hgrow (up ++ down) (by simp) hboth, ?_⟩
  have hread : (Toolpath.ofText? false moveLeftText).toOption.any
      (fun t ↦ decide (t.segments ≠ [])) = true := by decide +kernel
  cases h : Toolpath.ofText? false moveLeftText with
  | error e =>
    rw [h] at hread
    cases hread
  | ok t =>
    rw [h] at hread
    exact ⟨t, rfl, of_decide_eq_true hread, isLeast_ofSegments.2 false moveLeftText t h⟩

end Engraving
