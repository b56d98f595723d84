import Engraving.Toolpath.Reading
import Mathlib.Algebra.Order.Ring.Rat
import Mathlib.Order.Lattice

/-!
# The least rectangle

Over the rationals the bounds of some places are the least rectangle that holds them all: another
rectangle holds the places exactly when it encloses the bounds. So the bounds depend on no more than
which rectangles hold the places, whatever the places are and in whatever order they are met.

Which places the sides go through, and what becomes of that when two rectangles are joined, is told
of any numbers, since it rests on no law of their order.
-/

namespace Engraving

theorem Scalar.le_lesser_iff {a b c : ℚ} : a ≤ Scalar.lesser b c ↔ a ≤ b ∧ a ≤ c := by
  have hmin : Scalar.lesser b c = min b c := (min_def_lt' b c).symm
  rw [hmin, le_min_iff]

theorem Scalar.greater_le_iff {a b c : ℚ} : Scalar.greater b c ≤ a ↔ b ≤ a ∧ c ≤ a := by
  have hmax : Scalar.greater b c = max b c := (max_def_lt b c).symm
  rw [hmax, max_le_iff]

namespace Bounds

/-! ## Rectangles that hold places -/

theorem contains_iff {α : Type} [Scalar α] {r : Bounds α} {p : Point α} :
    r.contains p = true ↔ r.minX ≤ p.x ∧ p.x ≤ r.maxX ∧ r.minY ≤ p.y ∧ p.y ≤ r.maxY := by
  rw [contains, Bool.and_eq_true, Bool.and_eq_true, Bool.and_eq_true, decide_eq_true_iff,
    decide_eq_true_iff, decide_eq_true_iff, decide_eq_true_iff, and_assoc, and_assoc]

/-- One rectangle lies in another. -/
def Encloses {α : Type} [Scalar α] (r b : Bounds α) : Prop :=
  r.minX ≤ b.minX ∧ b.maxX ≤ r.maxX ∧ r.minY ≤ b.minY ∧ b.maxY ≤ r.maxY

variable {r b b' : Bounds ℚ} {p : Point ℚ} {points points' : List (Point ℚ)}

theorem Encloses.refl (b : Bounds ℚ) : b.Encloses b := ⟨le_rfl, le_rfl, le_rfl, le_rfl⟩

theorem Encloses.antisymm (h : b.Encloses b') (h' : b'.Encloses b) : b = b' := by
  obtain ⟨hleft, hright, hlower, hupper⟩ := h
  obtain ⟨hleft', hright', hlower', hupper'⟩ := h'
  rw [Bounds.mk.injEq]
  exact ⟨le_antisymm hleft hleft', le_antisymm hright' hright, le_antisymm hlower hlower',
    le_antisymm hupper' hupper⟩

theorem encloses_single : r.Encloses (single p) ↔ r.contains p = true := contains_iff.symm

theorem encloses_extend : r.Encloses (b.extend p) ↔ r.Encloses b ∧ r.contains p = true := by
  rw [Encloses, extend, Scalar.le_lesser_iff, Scalar.le_lesser_iff, Scalar.greater_le_iff,
    Scalar.greater_le_iff, contains_iff, Encloses]
  tauto

theorem encloses_foldl_extend :
    r.Encloses (points.foldl extend b) ↔
      r.Encloses b ∧ ∀ p ∈ points, r.contains p = true := by
  induction points generalizing b with
  | nil => exact (and_iff_left fun _ h ↦ nomatch h).symm
  | cons p rest ih => rw [List.foldl_cons, ih, encloses_extend, List.forall_mem_cons, and_assoc]

/-- A rectangle holds some places exactly when it encloses their bounds. -/
theorem encloses_iff_of_ofPoints? (h : ofPoints? points = some b) :
    r.Encloses b ↔ ∀ p ∈ points, r.contains p = true := by
  match points with
  | [] => cases h
  | p :: rest =>
    cases h
    rw [encloses_foldl_extend, encloses_single, List.forall_mem_cons]

/-! ## Rectangles that touch places

A side of the rectangle around some places is always the coordinate of one of them, whatever the
order of the numbers is like. -/

section touches

variable {α : Type} {b : Bounds α} {Q Q' : Point α → Prop}

/-- Every side of the rectangle goes through a place that satisfies `Q`. -/
structure Touches (b : Bounds α) (Q : Point α → Prop) : Prop where
  minX : ∃ p, Q p ∧ p.x = b.minX
  maxX : ∃ p, Q p ∧ p.x = b.maxX
  minY : ∃ p, Q p ∧ p.y = b.minY
  maxY : ∃ p, Q p ∧ p.y = b.maxY

theorem Touches.mono (h : b.Touches Q) (hQ : ∀ p, Q p → Q' p) : b.Touches Q' := by
  have hside {side : Point α → α} {v : α} (hv : ∃ p, Q p ∧ side p = v) :
      ∃ p, Q' p ∧ side p = v := hv.imp fun p ↦ .imp_left (hQ p)
  exact ⟨hside h.minX, hside h.maxX, hside h.minY, hside h.maxY⟩

theorem touches_single {p : Point α} (hp : Q p) : (single p).Touches Q :=
  ⟨⟨p, hp, rfl⟩, ⟨p, hp, rfl⟩, ⟨p, hp, rfl⟩, ⟨p, hp, rfl⟩⟩

variable [Scalar α] {c r : Bounds α} {p : Point α} {points : List (Point α)}

/-- The rectangle from the lesser of the lesser sides to the greater of the greater ones. -/
def join (b c : Bounds α) : Bounds α where
  minX := Scalar.lesser b.minX c.minX
  maxX := Scalar.greater b.maxX c.maxX
  minY := Scalar.lesser b.minY c.minY
  maxY := Scalar.greater b.maxY c.maxY

theorem extend_eq_join (b : Bounds α) (p : Point α) : b.extend p = b.join (single p) := rfl

theorem Touches.join (hb : b.Touches Q) (hc : c.Touches Q) : (b.join c).Touches Q := by
  have hlesser {side : Point α → α} {v w : α} (hv : ∃ p, Q p ∧ side p = v)
      (hw : ∃ p, Q p ∧ side p = w) : ∃ p, Q p ∧ side p = Scalar.lesser v w := by
    rw [Scalar.lesser]
    split
    · exact hw
    · exact hv
  have hgreater {side : Point α → α} {v w : α} (hv : ∃ p, Q p ∧ side p = v)
      (hw : ∃ p, Q p ∧ side p = w) : ∃ p, Q p ∧ side p = Scalar.greater v w := by
    rw [Scalar.greater]
    split
    · exact hw
    · exact hv
  exact ⟨hlesser hb.minX hc.minX, hgreater hb.maxX hc.maxX, hlesser hb.minY hc.minY,
    hgreater hb.maxY hc.maxY⟩

theorem Touches.foldl_extend (h : b.Touches Q) (hpoints : ∀ p ∈ points, Q p) :
    (points.foldl Bounds.extend b).Touches Q := by
  induction points generalizing b with
  | nil => exact h
  | cons p rest ih =>
    obtain ⟨hp, hrest⟩ := List.forall_mem_cons.mp hpoints
    rw [List.foldl_cons, extend_eq_join]
    exact ih (h.join (touches_single hp)) hrest

/-- The least rectangle around some places goes through places on all sides. -/
theorem touches_of_ofPoints? (h : ofPoints? points = some b) : b.Touches (· ∈ points) := by
  match points with
  | p :: rest =>
    cases h
    have hp : p ∈ p :: rest := List.mem_cons_self
    exact (touches_single hp).foldl_extend fun q hq ↦ List.mem_cons_of_mem p hq

/-- A rectangle that holds the places on the sides of another one encloses it. -/
theorem Touches.encloses (h : b.Touches Q) (hr : ∀ p, Q p → r.contains p = true) :
    r.Encloses b := by
  obtain ⟨left, hleft, hminX⟩ := h.minX
  obtain ⟨right, hright, hmaxX⟩ := h.maxX
  obtain ⟨low, hlow, hminY⟩ := h.minY
  obtain ⟨high, hhigh, hmaxY⟩ := h.maxY
  rw [Encloses, ← hminX, ← hmaxX, ← hminY, ← hmaxY]
  exact ⟨(contains_iff.mp (hr left hleft)).1, (contains_iff.mp (hr right hright)).2.1,
    (contains_iff.mp (hr low hlow)).2.2.1, (contains_iff.mp (hr high hhigh)).2.2.2⟩

end touches

/-! ## Rectangles that hold the same places -/

theorem contains_empty : (⟨1, 0, 0, 0⟩ : Bounds ℚ).contains p = false := by
  rw [← Bool.not_eq_true, contains_iff]
  rintro ⟨hleft, hright, -⟩
  exact absurd (hleft.trans hright) (by decide)

theorem ofPoints?_eq_of_forall_contains_iff (h : ∀ r : Bounds ℚ,
    (∀ p ∈ points, r.contains p = true) ↔ ∀ p ∈ points', r.contains p = true) :
    ofPoints? points = ofPoints? points' := by
  match points, points' with
  | [], [] => rfl
  | [], p :: _ =>
    have hempty := (h ⟨1, 0, 0, 0⟩).mp (fun _ h ↦ nomatch h) p List.mem_cons_self
    rw [contains_empty] at hempty
    cases hempty
  | p :: _, [] =>
    have hempty := (h ⟨1, 0, 0, 0⟩).mpr (fun _ h ↦ nomatch h) p List.mem_cons_self
    rw [contains_empty] at hempty
    cases hempty
  | p :: rest, p' :: rest' =>
    have hle {b b' : Bounds ℚ} (hb : ofPoints? (p :: rest) = some b)
        (hb' : ofPoints? (p' :: rest') = some b') : b.Encloses b' ∧ b'.Encloses b := by
      constructor
      · exact (encloses_iff_of_ofPoints? hb').mpr
          ((h b).mp ((encloses_iff_of_ofPoints? hb).mp (.refl b)))
      · exact (encloses_iff_of_ofPoints? hb).mpr
          ((h b').mpr ((encloses_iff_of_ofPoints? hb').mp (.refl b')))
    obtain ⟨hleft, hright⟩ := hle rfl rfl
    exact congrArg some (hleft.antisymm hright)

end Bounds

end Engraving
