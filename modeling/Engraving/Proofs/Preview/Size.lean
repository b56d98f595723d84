import Engraving.Preview.Figure
import Engraving.Proofs.Except
import Engraving.Proofs.Number.FixedPoint

/-!
# Sizes that cannot be drawn

A surface may be of any integer size, but its sides have to be floats to be drawn on. That is all
that numbers ask of a preview in a style of the kind that files hold: once the sides are floats, so
are the scale of the view and the sheet.
-/

namespace Engraving

/-- The quotient of an integer that is a float by an integer is a float. -/
theorem Quantity.exists_wholeQuotient {m n : ℤ} {x : Float} (hm : wholeFloat? m = .ok x)
    (hn : 0 < n) :
    ∃ y q, wholeQuotient m n = .ok y ∧ Engraving.Denotes y q ∧ (0 ≤ m → 0 ≤ q) := by
  have hpos : 0 < n.natAbs := Int.natAbs_pos.mpr hn.ne'
  have hround := isRounded_quotientFloat ((m < 0) != (n < 0)) m.natAbs hpos
  have hnonneg : 0 ≤ (m.natAbs : ℚ) / n.natAbs := by positivity
  have hle : ((m.natAbs : ℚ) / n.natAbs) ≤ m.natAbs :=
    div_le_self (Nat.cast_nonneg _) (by exact_mod_cast hpos)
  have habs (negative : Bool) : |if negative then -((m.natAbs : ℚ) / n.natAbs)
      else m.natAbs / n.natAbs| ≤ |(m : ℚ)| := by
    have hsign : |if negative then -((m.natAbs : ℚ) / n.natAbs) else m.natAbs / n.natAbs|
        = (m.natAbs : ℚ) / n.natAbs := by
      cases negative
      · exact abs_of_nonneg hnonneg
      · rw [if_pos rfl, abs_neg, abs_of_nonneg hnonneg]
    rw [hsign, ← Int.cast_abs, ← Int.natCast_natAbs, Int.cast_natCast]
    exact hle
  have hvalue := hround.denotes
    ((abs_nearestBinary_mono (habs _)).trans_lt (denotes_of_wholeFloat? hm).abs_lt)
  rw [wholeQuotient, dif_pos hpos]
  simp only [isFinite_iff_denotes.mpr ⟨_, hvalue⟩, if_true]
  refine ⟨_, _, rfl, hvalue, fun h ↦ nearestBinary_nonneg ?_⟩
  rw [decide_eq_false (not_lt.mpr h), decide_eq_false (not_lt.mpr hn.le), if_neg (by decide)]
  exact hnonneg

namespace SurfaceMap

variable {width height : ℤ} {padding : Float} {e : NumberError}

theorem room?_real (side : ℤ) (padding : Float) :
    room? (.whole side) (.real padding)
      = (wholeFloat? side).map fun x ↦ .real (Scalar.greater (x - padding * Float.ofNat 2) 1) := by
  have hdouble : (Quantity.real padding).mul (.whole 2) = .ok (.real (padding * Float.ofNat 2)) :=
    bind_eq_ok_iff.mpr ⟨padding, rfl, bind_eq_ok_iff.mpr
      ⟨Float.ofNat 2, wholeFloat?_natCast (n := 2) (by norm_num), rfl⟩⟩
  rw [room?, hdouble]
  change (Quantity.sub (.whole side) (.real (padding * Float.ofNat 2)) >>= _) = _
  rcases hside : wholeFloat? side with e | x <;>
    simp only [Quantity.sub, Quantity.lift, Quantity.toFloat?, hside] <;> rfl

theorem scaleOf?_real (room extent : Float) :
    scaleOf? (.real room) extent = .ok (scaleOf room extent) := by
  rw [scaleOf?]
  split
  · rfl
  · next h =>
    -- What is flat does not ask for a room.
    have hflat : ∀ room, scaleOf room extent = Scalar.ofNat 1 := fun _ ↦ if_neg h
    rw [hflat 1, hflat room]
    rfl

/-- A surface whose sides are floats is fitted by the formulas on floats. -/
theorem fit?_eq_fit {x y : Float} (padding : Float) (bounds : Bounds Float) (view : View Float)
    (hwidth : wholeFloat? width = .ok x) (hheight : wholeFloat? height = .ok y) :
    fit? bounds (.whole width) (.whole height) (.real padding) view
      = .ok (fit bounds x y padding view) := by
  rw [fit?, room?_real, room?_real, hwidth, hheight]
  simp only [Except.map, ok_bind, scaleOf?_real, Quantity.toFloat?, hwidth, hheight]
  rfl

/-- A view is fitted onto every surface whose sides are floats. -/
theorem fit?_eq_error_iff (bounds : Bounds Float) (view : View Float) :
    fit? bounds (.whole width) (.whole height) (.real padding) view = .error e ↔
      wholeFloat? width = .error e ∨ wholeFloat? height = .error e := by
  rcases hwidth : wholeFloat? width with wide | x
  · rw [fit?, room?_real, hwidth]
    change Except.error wide = .error e ↔ _
    refine ⟨by rintro ⟨⟩; exact Or.inl rfl, ?_⟩
    rintro (⟨⟨⟩⟩ | hheight)
    · rfl
    · rw [wholeFloat?_eq_error hwidth, wholeFloat?_eq_error hheight]
  rcases hheight : wholeFloat? height with high | y
  · rw [fit?, room?_real, room?_real, hwidth, hheight]
    simp only [Except.map, ok_bind, scaleOf?_real]
    change Except.error high = .error e ↔ _
    refine ⟨by rintro ⟨⟩; exact Or.inr rfl, ?_⟩
    rintro (⟨⟨⟩⟩ | ⟨⟨⟩⟩)
    rfl
  · rw [fit?_eq_fit padding bounds view hwidth hheight]
    exact iff_of_false (by rintro ⟨⟩) (not_or.mpr ⟨by rintro ⟨⟩, by rintro ⟨⟩⟩)

theorem exists_eq_fit {bounds : Bounds Float} {view : View Float} {m : SurfaceMap Float}
    (h : fit? bounds (.whole width) (.whole height) (.real padding) view = .ok m) :
    ∃ x y, wholeFloat? width = .ok x ∧ wholeFloat? height = .ok y ∧
      m = fit bounds x y padding view := by
  rcases hwidth : wholeFloat? width with e | x
  · rw [(fit?_eq_error_iff _ _).mpr (Or.inl hwidth)] at h
    cases h
  rcases hheight : wholeFloat? height with e | y
  · rw [(fit?_eq_error_iff _ _).mpr (Or.inr hheight)] at h
    cases h
  rw [fit?_eq_fit _ _ _ hwidth hheight] at h
  exact ⟨x, y, rfl, rfl, (Except.ok.inj h).symm⟩

end SurfaceMap

/-- A style of the kind that files hold: its padding is a float, and its resolution is a positive
integer. -/
structure PreviewStyle.IsPlain (s : PreviewStyle) : Prop where
  padding : ∃ x, s.padding = .real x
  dpi : ∃ n : Int, 0 < n ∧ s.dpi = .whole n

theorem PreviewStyle.isPlain_standard : IsPlain {} := ⟨⟨40, rfl⟩, 100, by decide, rfl⟩

/-- A style whose texts for colours stand for colours. -/
structure PreviewStyle.HasColors (s : PreviewStyle) : Prop where
  bounds : (Color.read? s.boundsColor).isSome = true
  rapid : (Color.read? s.rapidColor).isSome = true
  feed : (Color.read? s.feedColor).isSome = true
  origin : (Color.read? s.originColor).isSome = true

theorem PreviewStyle.hasColors_standard : HasColors {} := by
  constructor <;> decide +kernel

namespace Figure

variable {width height : ℤ} {e : NumberError}

theorem exists_sheet?_eq {n : ℤ} {x y : Float} (hwidth : wholeFloat? width = .ok x)
    (hheight : wholeFloat? height = .ok y) (hn : 0 < n) :
    ∃ across down, sheet? width height (.whole n)
        = (if isSide across && isSide down then .ok (across, down)
          else .error (.sheet across down)) ∧
      (0 ≤ width → isSide across = true) ∧ (0 ≤ height → isSide down = true) := by
  have hside {m : ℤ} {z : Float} {q : ℚ} (hz : Denotes z q) (hq : 0 ≤ m → 0 ≤ q) (hm : 0 ≤ m) :
      isSide z = true := by
    rw [isSide, Bool.and_eq_true, decide_eq_true_iff]
    exact ⟨(denotes_zero.le_iff hz).mpr (hq hm), isFinite_iff_denotes.mpr ⟨q, hz⟩⟩
  obtain ⟨across, p, hacross, hp, hp'⟩ := Quantity.exists_wholeQuotient hwidth hn
  obtain ⟨down, q, hdown, hq, hq'⟩ := Quantity.exists_wholeQuotient hheight hn
  refine ⟨across, down, ?_, hside hp hp', hside hq hq'⟩
  simp only [sheet?, Quantity.div, hacross, hdown]
  rfl

/-- A sheet for sides that are floats may be refused, but not for a number. -/
theorem sheet?_ne_number {n : ℤ} {x y : Float} (hwidth : wholeFloat? width = .ok x)
    (hheight : wholeFloat? height = .ok y) (hn : 0 < n) :
    sheet? width height (.whole n) ≠ .error (.number e) := by
  obtain ⟨across, down, heq, -⟩ := exists_sheet?_eq hwidth hheight hn
  rw [heq]
  split <;> rintro ⟨⟩

theorem color?_ne_number {error : String → FigureError} (h : ∀ text, error text ≠ .number e)
    (text : String) : color? error text ≠ .error (.number e) := by
  rw [color?]
  split
  · rintro ⟨⟩
  · exact fun heq ↦ h text (Except.error.inj heq)

/-- **Which sizes cannot be drawn.** -/
theorem ofSegments?_eq_number_iff {style : PreviewStyle} (h : style.IsPlain)
    (segments : List (Segment Float)) (bounds : Bounds Float) (view : View Float) :
    ofSegments? segments bounds width height style view = .error (.number e) ↔
      wholeFloat? width = .error e ∨ wholeFloat? height = .error e := by
  obtain ⟨⟨padding, hpadding⟩, n, hn, hdpi⟩ := h
  rw [ofSegments?, hpadding, hdpi, ← SurfaceMap.fit?_eq_error_iff bounds view]
  rcases hfit : SurfaceMap.fit? bounds (.whole width) (.whole height) (.real padding) view with
    failure | surface
  · exact ⟨by rintro ⟨⟩; rfl, by rintro ⟨⟩; rfl⟩
  refine iff_of_false (fun h ↦ ?_) (by rintro ⟨⟩)
  -- A side that is no float would have been in the way of the view.
  rcases hx : wholeFloat? width with wide | x
  · rw [(SurfaceMap.fit?_eq_error_iff bounds view).mpr (Or.inl hx)] at hfit
    cases hfit
  rcases hy : wholeFloat? height with high | y
  · rw [(SurfaceMap.fit?_eq_error_iff bounds view).mpr (Or.inr hy)] at hfit
    cases hfit
  change (sheet? width height (.whole n) >>= _) = _ at h
  rcases bind_eq_error_iff.mp h with h | ⟨⟨across, down⟩, -, h⟩
  · exact sheet?_ne_number hx hy hn h
  rcases bind_eq_error_iff.mp h with h | ⟨_, -, h⟩
  · exact color?_ne_number (by rintro _ ⟨⟩) _ h
  rcases bind_eq_error_iff.mp h with h | ⟨_, -, h⟩
  · exact color?_ne_number (by rintro _ ⟨⟩) _ h
  rcases bind_eq_error_iff.mp h with h | ⟨_, -, h⟩
  · exact color?_ne_number (by rintro _ ⟨⟩) _ h
  rcases bind_eq_error_iff.mp h with h | ⟨_, -, ⟨⟩⟩
  exact color?_ne_number (by rintro _ ⟨⟩) _ h

/-- What is drawn in colours and has sides that are floats is drawn. -/
theorem exists_ofSegments? {style : PreviewStyle} (h : style.IsPlain) (hcolors : style.HasColors)
    (segments : List (Segment Float)) (bounds : Bounds Float) (view : View Float)
    (hwidth : 0 ≤ width) (hheight : 0 ≤ height) {x y : Float} (hx : wholeFloat? width = .ok x)
    (hy : wholeFloat? height = .ok y) :
    ∃ f, ofSegments? segments bounds width height style view = .ok f := by
  obtain ⟨⟨padding, hpadding⟩, n, hn, hdpi⟩ := h
  obtain ⟨outline, houtline⟩ := Option.isSome_iff_exists.mp hcolors.bounds
  obtain ⟨rapid, hrapid⟩ := Option.isSome_iff_exists.mp hcolors.rapid
  obtain ⟨feed, hfeed⟩ := Option.isSome_iff_exists.mp hcolors.feed
  obtain ⟨origin, horigin⟩ := Option.isSome_iff_exists.mp hcolors.origin
  obtain ⟨across, down, hsheet, hacross, hdown⟩ := exists_sheet?_eq hx hy hn
  rw [hacross hwidth, hdown hheight] at hsheet
  rw [ofSegments?, hpadding, hdpi, SurfaceMap.fit?_eq_fit padding bounds view hx hy, hsheet]
  simp only [color?, houtline, hrapid, hfeed, horigin]
  exact ⟨_, rfl⟩

end Figure

end Engraving
