import Engraving.Proofs.Program.Joining
import Engraving.Proofs.Program.Raster
import Engraving.Proofs.Toolpath.LeastRectangle
import Mathlib.Analysis.Convex.Basic

/-!
# What a coalesced program burns

Two programs engrave the same when their exact replays burn the same places with the same powers,
whatever strokes the places are burnt by. A move that is cut up goes over the same places as its
pieces do: these lie end to end and run in one direction, so that no place is passed over and none
is gained. With the lines between the moves in place, a coalesced program burns what the program
itself burns, keeps to the same rectangle and leaves the head in the same place.

## Contents

- `Burns`: a place is burnt with a power.
- `ExactHead.Matches`: two lists of lines that the head cannot tell apart by what is burnt.
- `exactReplay_coalesce`: a program and its coalesced form.
-/

namespace Engraving

/-! ## Places under a stroke -/

/-- The places that a stroke goes over. -/
def Stroke.places (s : Stroke) : Set (ℚ × ℚ) :=
  segment ℚ (s.start.x, s.start.y) (s.finish.x, s.finish.y)

/-- A stroke as a segment of a toolpath. -/
def Stroke.toSegment (s : Stroke) : Segment ℚ := ⟨s.start, s.finish, false⟩

/-- Some strokes go over a place with a power, or without any. -/
def Burns (strokes : List Stroke) (power? : Option ℚ) (q : Point ℚ) : Prop :=
  ∃ s ∈ strokes, s.power? = power? ∧ (q.x, q.y) ∈ s.places

section burns

variable {strokes strokes' : List Stroke} {power? : Option ℚ} {q : Point ℚ}

theorem burns_append :
    Burns (strokes ++ strokes') power? q ↔ Burns strokes power? q ∨ Burns strokes' power? q := by
  simp only [Burns, List.mem_append, or_and_right, exists_or]

theorem burns_cons {s : Stroke} :
    Burns (s :: strokes) power? q ↔
      (s.power? = power? ∧ (q.x, q.y) ∈ s.places) ∨ Burns strokes power? q := by
  simp only [Burns, List.mem_cons, or_and_right, exists_or, exists_eq_left]

theorem not_burns_nil : ¬ Burns [] power? q := fun ⟨_, h, _⟩ ↦ nomatch h

/-- A rectangle holds all places under a stroke as soon as it holds the ends. -/
theorem contains_of_mem_places {s : Stroke} {b : Bounds ℚ} (hstart : b.contains s.start = true)
    (hfinish : b.contains s.finish = true) (hq : (q.x, q.y) ∈ s.places) :
    b.contains q = true := by
  have hcorners {p : Point ℚ} : b.contains p = true ↔
      (p.x, p.y) ∈ Set.Icc (b.minX, b.minY) (b.maxX, b.maxY) := by
    rw [Bounds.contains_iff, Set.mem_Icc, Prod.mk_le_mk, Prod.mk_le_mk]
    tauto
  rw [hcorners] at hstart hfinish ⊢
  exact (convex_Icc _ _).segment_subset hstart hfinish hq

theorem forall_contains_ends_iff {b : Bounds ℚ} :
    (∀ p ∈ (strokes.map Stroke.toSegment).flatMap fun s ↦ [s.start, s.finish],
      b.contains p = true) ↔ ∀ power? q, Burns strokes power? q → b.contains q = true := by
  constructor
  · rintro h power? q ⟨s, hs, -, hq⟩
    have hends := List.mem_map_of_mem (f := Stroke.toSegment) hs
    exact contains_of_mem_places (h _ (List.mem_flatMap.mpr ⟨_, hends, by simp [Stroke.toSegment]⟩))
      (h _ (List.mem_flatMap.mpr ⟨_, hends, by simp [Stroke.toSegment]⟩)) hq
  · intro h p hp
    obtain ⟨_, hsegment, hp⟩ := List.mem_flatMap.mp hp
    obtain ⟨s, hs, rfl⟩ := List.mem_map.mp hsegment
    rw [List.mem_pair] at hp
    rcases hp with rfl | rfl
    · exact h s.power? _ ⟨s, hs, rfl, left_mem_segment ℚ _ _⟩
    · exact h s.power? _ ⟨s, hs, rfl, right_mem_segment ℚ _ _⟩

/-- The bounds of some strokes depend on no more than the places that they go over. -/
theorem ofSegments_eq_of_burns_iff
    (h : ∀ power? q, Burns strokes power? q ↔ Burns strokes' power? q) :
    Bounds.ofSegments (strokes.map Stroke.toSegment)
      = Bounds.ofSegments (strokes'.map Stroke.toSegment) := by
  rw [Bounds.ofSegments, Bounds.ofSegments, Bounds.ofPoints?_eq_of_forall_contains_iff]
  intro b
  rw [forall_contains_ends_iff, forall_contains_ends_iff]
  simp only [h]

end burns

/-! ## Lines that the head cannot tell apart -/

namespace ExactHead

variable (h : ExactHead) {lines lines' lines'' rest rest' : List String}

/-- The head behind some written lines. -/
def behind (lines : List String) : ExactHead := lines.foldl (fun h text ↦ (h.line text).1) h

/-- Where the head is before some written lines and behind each of them. -/
def visits : ExactHead → List String → List (Point ℚ)
  | h, [] => [h.place]
  | h, text :: rest => h.place :: (h.line text).1.visits rest

theorem behind_append : h.behind (lines ++ rest) = (h.behind lines).behind rest :=
  List.foldl_append

theorem strokes_append :
    h.strokes (lines ++ rest) = h.strokes lines ++ (h.behind lines).strokes rest := by
  induction lines generalizing h with
  | nil => rfl
  | cons text lines ih =>
    rw [List.cons_append, strokes, ih, strokes, List.append_assoc]
    rfl

theorem place_mem_visits : h.place ∈ h.visits lines := by
  cases lines <;> exact List.mem_cons_self

theorem forall_mem_visits_append {P : Point ℚ → Prop} :
    (∀ p ∈ h.visits (lines ++ rest), P p) ↔
      (∀ p ∈ h.visits lines, P p) ∧ ∀ p ∈ (h.behind lines).visits rest, P p := by
  induction lines generalizing h with
  | nil =>
    rw [visits, List.forall_mem_singleton]
    exact ⟨fun hrest ↦ ⟨hrest _ h.place_mem_visits, hrest⟩, And.right⟩
  | cons text lines ih =>
    rw [List.cons_append, visits, List.forall_mem_cons, ih, visits, List.forall_mem_cons, and_assoc]
    rfl

/-- Two lists of lines burn the same and take the head to the same place, and one stays within a
rectangle when the other does. -/
structure Matches (lines lines' : List String) : Prop where
  behind : h.behind lines = h.behind lines'
  burns : ∀ power? q, Burns (h.strokes lines) power? q ↔ Burns (h.strokes lines') power? q
  visits : ∀ b : Bounds ℚ, (∀ p ∈ h.visits lines, b.contains p = true) ↔
    ∀ p ∈ h.visits lines', b.contains p = true

namespace Matches

variable {h}

theorem refl (lines : List String) : h.Matches lines lines :=
  ⟨rfl, fun _ _ ↦ Iff.rfl, fun _ ↦ Iff.rfl⟩

theorem trans (hlines : h.Matches lines lines') (hlines' : h.Matches lines' lines'') :
    h.Matches lines lines'' where
  behind := hlines.behind.trans hlines'.behind
  burns power? q := (hlines.burns power? q).trans (hlines'.burns power? q)
  visits b := (hlines.visits b).trans (hlines'.visits b)

theorem append (hlines : h.Matches lines lines') (hrest : (h.behind lines).Matches rest rest') :
    h.Matches (lines ++ rest) (lines' ++ rest') where
  behind := by
    rw [behind_append, behind_append, hrest.behind, hlines.behind]
  burns power? q := by
    rw [strokes_append, strokes_append, burns_append, burns_append, hlines.burns, hrest.burns,
      hlines.behind]
  visits b := by
    rw [forall_mem_visits_append, forall_mem_visits_append, hlines.visits, hrest.visits,
      hlines.behind]

end Matches

end ExactHead

/-! ## A move that is cut up -/

/-- The place beside another, further to the right by some length. -/
def Point.beside (p : Point ℚ) (v : ℚ) : Point ℚ := ⟨p.x + v, p.y⟩

/-- A move along a row, as it is written. -/
def moveText (negative : Bool) (power units : ℕ) : String :=
  (ProgramLine.burn (.finite negative units) power).text

section moves

variable (negative : Bool) (power : ℕ) (p : Point ℚ) {q : Point ℚ} {power? : Option ℚ}

theorem beside_decimal_add (m n : ℕ) :
    p.beside (decimal negative (m + n))
      = (p.beside (decimal negative m)).beside (decimal negative n) := by
  rw [Point.beside, decimal_add, ← add_assoc]
  rfl

theorem mem_places_beside {v : ℚ} :
    (q.x, q.y) ∈ (⟨p, p.beside v, power?⟩ : Stroke).places ↔
      q.y = p.y ∧ q.x ∈ Set.uIcc p.x (p.x + v) := by
  rw [Stroke.places, Point.beside, ← Prod.image_mk_segment_left, segment_eq_uIcc]
  constructor
  · rintro ⟨x, hx, heq⟩
    obtain ⟨rfl, hy⟩ := Prod.mk.inj heq
    exact ⟨hy.symm, hx⟩
  · rintro ⟨hy, hx⟩
    exact ⟨q.x, hx, by rw [hy]⟩

/-- Two moves in one direction go over an interval together. -/
theorem uIcc_decimal_add (x : ℚ) (m n : ℕ) :
    Set.uIcc x (x + decimal negative (m + n))
      = Set.uIcc x (x + decimal negative m) ∪
        Set.uIcc (x + decimal negative m) (x + decimal negative m + decimal negative n) := by
  have hnonneg (k : ℕ) : (0 : ℚ) ≤ k / 10 ^ 3 := by positivity
  rw [decimal_add, ← add_assoc]
  cases negative
  · have hm : x ≤ x + decimal false m := le_add_of_nonneg_right (hnonneg m)
    have hn : x + decimal false m ≤ x + decimal false m + decimal false n :=
      le_add_of_nonneg_right (hnonneg n)
    rw [Set.uIcc_of_le hm, Set.uIcc_of_le hn, Set.uIcc_of_le (hm.trans hn),
      Set.Icc_union_Icc_eq_Icc hm hn]
  · have hm : x + decimal true m ≤ x := add_le_of_nonpos_right (neg_nonpos.mpr (hnonneg m))
    have hn : x + decimal true m + decimal true n ≤ x + decimal true m :=
      add_le_of_nonpos_right (neg_nonpos.mpr (hnonneg n))
    rw [Set.uIcc_of_ge hm, Set.uIcc_of_ge hn, Set.uIcc_of_ge (hn.trans hm), Set.union_comm,
      Set.Icc_union_Icc_eq_Icc hn hm]

theorem mem_places_beside_add (m n : ℕ) :
    (q.x, q.y) ∈ (⟨p, p.beside (decimal negative (m + n)), power?⟩ : Stroke).places ↔
      (q.x, q.y) ∈ (⟨p, p.beside (decimal negative m), power?⟩ : Stroke).places ∨
      (q.x, q.y) ∈ (⟨p.beside (decimal negative m),
        (p.beside (decimal negative m)).beside (decimal negative n), power?⟩ : Stroke).places := by
  rw [mem_places_beside, mem_places_beside, mem_places_beside, uIcc_decimal_add, Set.mem_union,
    and_or_left]
  rfl

theorem line_moveText (units : ℕ) :
    (⟨p, true⟩ : ExactHead).line (moveText negative power units)
      = (⟨p.beside (decimal negative units), true⟩,
          some ⟨p, p.beside (decimal negative units), some (power : ℚ)⟩) :=
  ExactHead.line_burn p (value?_finite_three negative units) power

theorem matches_moveText_add (m n : ℕ) :
    (⟨p, true⟩ : ExactHead).Matches [moveText negative power (m + n)]
      [moveText negative power m, moveText negative power n] := by
  have hwhole := line_moveText negative power p (m + n)
  have hfirst := line_moveText negative power p m
  have hsecond := line_moveText negative power (p.beside (decimal negative m)) n
  have hend := beside_decimal_add negative p m n
  constructor
  · rw [ExactHead.behind, ExactHead.behind, List.foldl_cons, List.foldl_cons, List.foldl_cons,
      hwhole, hfirst, hsecond, hend]
  · intro power? q
    rw [ExactHead.strokes_cons_of_line _ hwhole, ExactHead.strokes_cons_of_line _ hfirst,
      ExactHead.strokes_cons_of_line _ hsecond]
    simp only [ExactHead.strokes, Option.toList_some, List.append_nil, List.singleton_append,
      burns_cons, not_burns_nil, or_false, mem_places_beside_add, and_or_left]
  · intro b
    simp only [ExactHead.visits, hwhole, hfirst, hsecond, List.forall_mem_cons, ← hend]
    refine and_congr_right fun hstart ↦ ⟨fun hfinish ↦ ⟨?_, hfinish⟩, And.right⟩
    exact contains_of_mem_places (s := ⟨p, p.beside (decimal negative (m + n)), none⟩) hstart
      hfinish.1 ((mem_places_beside_add negative p m n).mpr (.inl (right_mem_segment ℚ _ _)))

theorem matches_moveText_sum {lengths : List ℕ} (hne : lengths ≠ []) :
    (⟨p, true⟩ : ExactHead).Matches [moveText negative power lengths.sum]
      (lengths.map (moveText negative power)) := by
  induction lengths generalizing p with
  | nil => exact absurd rfl hne
  | cons units rest ih =>
    match rest with
    | [] => exact .refl _
    | next :: later =>
      have hpieces : ((⟨p, true⟩ : ExactHead).behind [moveText negative power units]).Matches
          [moveText negative power (next :: later).sum]
          ((next :: later).map (moveText negative power)) := by
        change ((⟨p, true⟩ : ExactHead).line (moveText negative power units)).1.Matches _ _
        rw [line_moveText]
        exact ih _ (List.cons_ne_nil _ _)
      exact (matches_moveText_add negative power p units (next :: later).sum).trans
        ((ExactHead.Matches.refl [moveText negative power units]).append hpieces)

end moves

/-! ## A scan whose moves are cut up -/

theorem exists_line_of_isScanLine {strides : Strides} {line : ProgramLine}
    (hscan : IsScanLine strides line) (hfinite : line.IsFinite) (p : Point ℚ) :
    ∃ p', ((⟨p, true⟩ : ExactHead).line line.text).1 = ⟨p', true⟩ := by
  cases hscan with
  | comment y =>
    refine ⟨p, ?_⟩
    rw [ExactHead.line, ProgramLine.ofLine_text hfinite]
    rfl
  | right power =>
    obtain ⟨v, hv⟩ := FixedPoint.isFinite_iff_value?.mp (hfinite _ List.mem_cons_self)
    exact ⟨_, congrArg Prod.fst (ExactHead.line_burn p hv power)⟩
  | left power =>
    obtain ⟨v, hv⟩ := FixedPoint.isFinite_iff_value?.mp (hfinite _ List.mem_cons_self)
    exact ⟨_, congrArg Prod.fst (ExactHead.line_burn p hv power)⟩
  | down =>
    obtain ⟨v, hv⟩ := FixedPoint.isFinite_iff_value?.mp (hfinite _ List.mem_cons_self)
    exact ⟨_, congrArg Prod.fst (ExactHead.line_advance p hv)⟩

/-- The head cannot tell a scan from one whose moves are cut up. -/
theorem CutInto.matches {strides : Strides} {joined plain : List ProgramLine}
    (h : CutInto joined plain)
    (hscan : ∀ line ∈ plain, IsScanLine strides line ∧ line.IsFinite) (p : Point ℚ) :
    (⟨p, true⟩ : ExactHead).Matches (joined.map ProgramLine.text)
      (plain.map ProgramLine.text) := by
  induction h generalizing p with
  | nil => exact .refl _
  | @line line joined plain hline _ ih =>
    obtain ⟨hfirst, hrest⟩ := List.forall_mem_cons.mp hscan
    obtain ⟨p', hp'⟩ := exists_line_of_isScanLine hfirst.1 hfirst.2 p
    have hbehind : (⟨p, true⟩ : ExactHead).behind [line.text] = ⟨p', true⟩ := hp'
    exact (ExactHead.Matches.refl [line.text]).append (hbehind ▸ ih hrest p')
  | @move negative lengths power joined plain hne _ ih =>
    have hbehind : (⟨p, true⟩ : ExactHead).behind [moveText negative power lengths.sum]
        = ⟨p.beside (decimal negative lengths.sum), true⟩ :=
      congrArg Prod.fst (line_moveText negative power p lengths.sum)
    have hmove := matches_moveText_sum negative power p hne
    rw [List.map_cons, List.map_append, List.map_map]
    exact hmove.append (hbehind ▸ ih (fun line hline ↦ hscan line (List.mem_append_right _ hline)) _)

namespace Plan

variable {s : Setting Quantity} {grid : Grid} {startX startY : Quantity}
  (p : Plan s grid startX startY)

/-- The head cannot tell a program from one whose scan it cannot tell apart. -/
theorem matches_withScan {joined : List ProgramLine} (h : CutInto joined p.scan)
    (hfinite : ∀ line ∈ p.lines, line.IsFinite) :
    ({} : ExactHead).Matches ((p.withScan joined).map ProgramLine.text)
      (p.lines.map ProgramLine.text) := by
  have hscan : ∀ line ∈ p.scan, IsScanLine s.strides line ∧ line.IsFinite := fun line hline ↦
    ⟨isScanLine_of_mem_scanLines hline, hfinite line (p.mem_lines_of_mem_scan hline)⟩
  obtain ⟨before, after, hparts⟩ : ∃ before after, ∀ lines : List ProgramLine,
      (p.withScan lines).map ProgramLine.text
        = (before ++ [ProgramLine.relative.text]) ++ (lines.map ProgramLine.text ++ after) := by
    refine ⟨(p.setup ++ [ProgramLine.place p.left p.top, .laserOn]).map ProgramLine.text,
      [ProgramLine.laserOff, .restoreAbsolute].map ProgramLine.text, fun lines ↦ ?_⟩
    rw [withScan]
    simp only [List.map_append, List.map_cons, List.map_nil, List.append_assoc, List.cons_append,
      List.nil_append]
  -- Whatever comes before it, the last line of the preparation makes coordinates relative.
  have hrelative : ({} : ExactHead).behind (before ++ [ProgramLine.relative.text])
      = ⟨(({} : ExactHead).behind before).place, true⟩ := by
    have hmode : ProgramLine.relative.IsFinite := ProgramLine.isFinite_of_coordinates_eq_nil rfl
    rw [ExactHead.behind_append, ExactHead.behind, List.foldl_cons, ExactHead.line,
      ProgramLine.ofLine_text hmode]
    rfl
  rw [← p.withScan_scan, hparts, hparts]
  refine (ExactHead.Matches.refl _).append ?_
  rw [hrelative]
  exact (h.matches hscan _).append (.refl _)

end Plan

/-- **Coalescing preserves the engraving.** When all printed coordinates of a program are finite and
its rows are neither too long nor of too many pixels, the coalesced program consists of the lines of
the program, its moves joined: they can be cut up so that the moves of the program come back, with
the same direction and power and exactly their total length. The exact replays of both programs burn
the same places with the same powers, lie in the same rectangle, and end in the same place. -/
theorem exactReplay_coalesce {s : Setting Quantity} {grid : Grid} {startX startY : Quantity}
    {w : Workpiece Quantity} (h : compile? s grid startX startY = .ok w)
    (hfinite : w.HasFiniteCoordinates) (hwidth : grid.width ≤ 100000)
    (hlength : ∀ delta power, ProgramLine.burn delta power ∈ w.lines.toList →
      ∀ v ∈ delta.value?, grid.width * |v| ≤ 1000000) :
    (∃ joined, coalesce w.texts = joined.map ProgramLine.text ∧
      CutInto joined w.lines.toList) ∧
    (∀ power? q, Burns (exactReplay (coalesce w.texts)) power? q ↔
      Burns (exactReplay w.texts) power? q) ∧
    Bounds.ofSegments ((exactReplay (coalesce w.texts)).map Stroke.toSegment)
      = Bounds.ofSegments ((exactReplay w.texts).map Stroke.toSegment) ∧
    Bounds.ofPoints? (({} : ExactHead).visits (coalesce w.texts))
      = Bounds.ofPoints? (({} : ExactHead).visits w.texts) ∧
    ({} : ExactHead).behind (coalesce w.texts) = ({} : ExactHead).behind w.texts := by
  obtain ⟨p, hlines⟩ := exists_plan h
  have hp : ∀ line ∈ p.lines, line.IsFinite := hlines ▸ hfinite
  obtain ⟨joined, hcut, hjoined⟩ := p.exists_cutInto_coalesce hp hwidth (hlines ▸ hlength)
  have hmatches := p.matches_withScan hcut hp
  rw [Workpiece.texts, hlines, hjoined]
  exact ⟨⟨p.withScan joined, rfl, p.cutInto_withScan hcut⟩, hmatches.burns,
    ofSegments_eq_of_burns_iff hmatches.burns,
    Bounds.ofPoints?_eq_of_forall_contains_iff hmatches.visits, hmatches.behind⟩

/-- A grid with pixels of equal gray side by side. -/
def Grid.plateau : Grid where
  width := 3
  rows := [[0, 0, 0], [255, 7, 7]]
  uniform := by decide

/-- Five of the six moves of the plateau are joined to two. -/
theorem exactReplay_coalesce_plateau :
    ∃ w, compile? Setting.small Grid.plateau (.real 10) (.whole 20) = .ok w ∧
      (coalesce w.texts).length + 3 = w.texts.length ∧
      ∀ power? q, Burns (exactReplay (coalesce w.texts)) power? q ↔
        Burns (exactReplay w.texts) power? q := by
  have hok : (match compile? Setting.small Grid.plateau (.real 10) (.whole 20) with
    | .ok w => decide (w.HasFiniteCoordinates ∧ (coalesce w.texts).length + 3 = w.texts.length ∧
        ∀ line ∈ w.lines.toList, ∀ d ∈ line.coordinates, ∀ v ∈ d.value?, 3 * |v| ≤ 1000000)
    | .error _ => false) = true := by decide +kernel
  match h : compile? Setting.small Grid.plateau (.real 10) (.whole 20) with
  | .error _ =>
    rw [h] at hok
    cases hok
  | .ok w =>
    rw [h] at hok
    obtain ⟨hfinite, hjoined, hshort⟩ := of_decide_eq_true hok
    have hwidth : Grid.plateau.width ≤ 100000 := by decide
    have hlength (delta : FixedPoint 3) (power : ℤ)
        (hburn : ProgramLine.burn delta power ∈ w.lines.toList) :
        ∀ v ∈ delta.value?, Grid.plateau.width * |v| ≤ 1000000 :=
      hshort _ hburn delta List.mem_cons_self
    exact ⟨w, rfl, hjoined, (exactReplay_coalesce h hfinite hwidth hlength).2.1⟩

end Engraving
