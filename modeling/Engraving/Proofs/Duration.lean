import Engraving.Duration
import Engraving.Proofs.Except
import Engraving.Proofs.Number.DecimalText
import Engraving.Proofs.Number.FixedPoint
import Engraving.Proofs.Number.FloatOrder
import Engraving.Proofs.Number.FloatSign
import Engraving.Proofs.Power
import Engraving.Proofs.Toolpath.WordText

/-!
# Durations and their texts

Which durations can be shown, and what is read off the text of one.
-/

namespace Engraving

/-! ## Durations that can be shown

Every duration can be shown but one: an infinite one has no whole seconds. What is no number and
what is negative counts as no time, and all else is finite.
-/

section

open Float.Model

variable {x y : Float}

theorem isFinite_or_of_pos (h : 0 < x) :
    (Exact.ofFloat x).isFinite = true ∨ Exact.ofFloat x = .infinite false := by
  rw [float_lt_iff] at h
  rw [ofFloat_eq_exactOf]
  rcases hx : x.toModel.unpack with ⟨_ | _⟩ | _ | s | _
  · rw [hx] at h
    cases h
  · exact Or.inr rfl
  · rw [hx] at h
    cases h
  · exact Or.inl rfl
  · exact Or.inl rfl

theorem not_lt_of_infinite (h : Exact.ofFloat x = .infinite false) : 0 < x ∧ ¬ x < 60 :=
  ⟨(denotes_zero.lt_infinite h).1,
    ((denotes_ofNat (n := 60) (by norm_num)).lt_infinite h).2⟩

/-- **Which durations cannot be shown.** -/
theorem Duration.ofSeconds?_eq_error_iff {e : NumberError} :
    ofSeconds? x = .error e ↔ Exact.ofFloat x = .infinite false ∧ e = .infinite := by
  by_cases hinfinite : Exact.ofFloat x = .infinite false
  · obtain ⟨hpos, hlarge⟩ := not_lt_of_infinite hinfinite
    simp only [ofSeconds?, if_pos hpos, if_neg hlarge, hinfinite]
    exact ⟨fun h ↦ ⟨trivial, by cases h; rfl⟩, fun h ↦ by rw [h.2]; rfl⟩
  · refine iff_of_false (fun h ↦ ?_) fun h ↦ hinfinite h.1
    by_cases hpos : 0 < x
    · obtain hfinite | hx := isFinite_or_of_pos hpos
      · simp only [ofSeconds?, if_pos hpos] at h
        split at h
        · cases h
        · rcases hx : Exact.ofFloat x with ⟨negative, m, k⟩ | _ | _ <;> rw [hx] at h hfinite
          · cases h
          · cases hfinite
          · cases hfinite
      · exact hinfinite hx
    · have hzero : (0 : Float) < 60 := by
        rw [float_lt_iff]
        rfl
      simp only [ofSeconds?, if_neg hpos, if_pos hzero] at h
      cases h

end

/-! ## Durations as they are read

A duration is read field by field: a numeral, the letter of a unit, a blank. What is read off the
text of a duration is compared here with the number of seconds that it was made of. It is off by
half of the last place that is shown, and of two numbers the greater is never shown as the less.

In normal form no field is as great as the next unit. From a minute on this is so for every number,
because whole seconds are rounded before they are cut into fields. Below a minute the fields are
chosen first: a number that is rounded up to a minute in tenths is shown as sixty seconds, and no
other number of seconds is shown in a form that is not normal.
-/

section

/-! ### Reading -/

def unitSeconds? : Char → Option ℚ
  | 's' => some 1
  | 'm' => some 60
  | 'h' => some 3600
  | _ => none

/-- The seconds in a field: a numeral, and the letter of its unit. -/
def fieldSeconds? (field : List Char) : Option ℚ :=
  match field.dropWhile isNumeral with
  | [unit] => do return (← exactValue? (field.takeWhile isNumeral)) * (← unitSeconds? unit)
  | _ => none

/-- The seconds in all fields of a text. -/
def readSeconds? (text : String) : Option ℚ :=
  ((blankFree text.toList).mapM fieldSeconds?).map List.sum

/-- The letter of a unit can be told from a number and from a blank. -/
theorem of_unitSeconds? {unit : Char} {k : ℚ} (h : unitSeconds? unit = some k) :
    isNumeral unit = false ∧ isBlank unit = false := by
  rw [unitSeconds?.eq_def] at h
  split at h
  · decide
  · decide
  · decide
  · cases h

/-- The field can stand between blanks, and is read as so many seconds. -/
structure IsField (field : List Char) (t : ℚ) : Prop where
  ne_nil : field ≠ []
  isBlank : ∀ c ∈ field, isBlank c = false
  seconds : fieldSeconds? field = some t

theorem isField_append {number : List Char} {n k : ℚ} {unit : Char}
    (hnumber : ∀ c ∈ number, isNumeral c = true) (hn : exactValue? number = some n)
    (hk : unitSeconds? unit = some k) : IsField (number ++ [unit]) (n * k) := by
  obtain ⟨hunit, hblank⟩ := of_unitSeconds? hk
  have hstop : ¬ isNumeral unit = true := by
    rw [hunit]
    exact Bool.false_ne_true
  refine ⟨List.append_ne_nil_of_right_ne_nil _ (List.cons_ne_nil _ _), ?_, ?_⟩
  · rw [List.forall_mem_append, List.forall_mem_singleton]
    exact ⟨fun c hc ↦ isBlank_of_isNumeral (hnumber c hc), hblank⟩
  · rw [fieldSeconds?, List.dropWhile_append_of_pos hnumber, List.takeWhile_append_of_pos hnumber,
      List.dropWhile_cons_of_neg hstop, List.takeWhile_cons_of_neg hstop, List.append_nil]
    dsimp only
    rw [hn, hk]
    rfl

theorem isField_count (n : ℕ) (unit : Char) {k : ℚ} (hk : unitSeconds? unit = some k) :
    IsField ((toString n).toList ++ [unit]) (n * k) := by
  rw [Nat.toString_eq_ofList_toDigits, String.toList_ofList]
  exact isField_append (fun _ hc ↦ isNumeral_of_isDigit (isDigit_of_mem_toDigits hc))
    (exactValue?_toDigits n) hk

theorem isField_padded (n : ℕ) (unit : Char) {k : ℚ} (hk : unitSeconds? unit = some k) :
    IsField ((FixedPoint.paddedDigits 2 n).toList ++ [unit]) (n * k) := by
  have hdigits : ∀ c ∈ (FixedPoint.paddedDigits 2 n).toList, c.isDigit = true :=
    fun _ ↦ FixedPoint.isDigit_of_mem_paddedDigits
  have hne : (FixedPoint.paddedDigits 2 n).toList ≠ [] := by
    rw [FixedPoint.toList_paddedDigits]
    exact List.append_ne_nil_of_right_ne_nil _ Nat.toDigits_ne_nil
  have hvalue := exactValue?_of_digits hne hdigits
  rw [FixedPoint.digitsValue_paddedDigits] at hvalue
  exact isField_append (fun c hc ↦ isNumeral_of_isDigit (hdigits c hc)) hvalue hk

theorem readSeconds?_eq {text : String} {fields : List (List Char)} {times : List ℚ}
    (htext : text.toList = [' '].intercalate fields) (h : List.Forall₂ IsField fields times) :
    readSeconds? text = some times.sum := by
  have hfields : ∀ field ∈ fields, field ≠ [] ∧ ∀ c ∈ field, isBlank c = false := by
    intro field hfield
    obtain ⟨t, -, ht⟩ := exists_of_mem_forall₂ h hfield
    exact ⟨ht.ne_nil, ht.isBlank⟩
  have hruns := blankFree_intercalate hfields (.inl rfl)
  rw [List.append_nil] at hruns
  have htimes : fields.mapM fieldSeconds? = some times := by
    clear htext hruns hfields
    induction h with
    | nil => rfl
    | cons ht _ ih =>
      rw [List.mapM_cons, ht.seconds, ih]
      rfl
  rw [readSeconds?, htext, hruns, htimes]
  rfl

namespace Duration

/-- The seconds in a duration, if it is finite. -/
def total? : Duration → Option ℚ
  | seconds s => s.value?
  | minutes m s => some (m * 60 + s)
  | hours h m s => some (h * 3600 + (m * 60 + s))

theorem readSeconds?_text {d : Duration} {t : ℚ} (h : d.total? = some t) :
    readSeconds? d.text = some t := by
  match d with
  | seconds s =>
    match s, h with
    | .finite negative units, h =>
      have hfield : IsField ((FixedPoint.finite negative units : FixedPoint 1).text.toList ++ ['s'])
          (t * 1) :=
        isField_append (fun _ ↦ FixedPoint.isNumeral_of_mem_text_finite)
          ((FixedPoint.exactValue?_text one_pos _).trans h) rfl
      rw [readSeconds?_eq _ (.cons hfield .nil), List.sum_singleton, mul_one]
      rw [List.intercalate_singleton, text, String.toList_append]
      rfl
  | minutes m s =>
    cases h
    rw [readSeconds?_eq _ (.cons (isField_count m 'm' rfl) (.cons (isField_padded s 's' rfl) .nil)),
      List.sum_cons, List.sum_singleton, mul_one]
    rw [List.intercalate_cons_cons, List.intercalate_singleton, text]
    simp only [String.toList_append, List.append_assoc]
    rfl
  | hours h' m s =>
    cases h
    rw [readSeconds?_eq _ (.cons (isField_count h' 'h' rfl)
        (.cons (isField_padded m 'm' rfl) (.cons (isField_padded s 's' rfl) .nil))),
      List.sum_cons, List.sum_cons, List.sum_singleton, mul_one]
    rw [List.intercalate_cons_cons, List.intercalate_cons_cons, List.intercalate_singleton, text]
    simp only [String.toList_append, List.append_assoc]
    rfl

end Duration

/-! ### Normal form -/

/-- A count below a hundred in two digits. -/
def twoDigits (n : ℕ) : String := toString (n / 10) ++ toString (n % 10)

/-- A time in normal form, with half of its last place. -/
inductive IsNormalTime : String → ℚ → Prop
  | seconds {s tenths : ℕ} (hs : s < 60) (htenths : tenths < 10) :
    IsNormalTime (toString s ++ "." ++ toString tenths ++ "s") (1 / 20)
  | minutes {m s : ℕ} (hm : 1 ≤ m) (hm' : m < 60) (hs : s < 60) :
    IsNormalTime (toString m ++ "m " ++ twoDigits s ++ "s") (1 / 2)
  | hours {h m s : ℕ} (hh : 1 ≤ h) (hm : m < 60) (hs : s < 60) :
    IsNormalTime (toString h ++ "h " ++ twoDigits m ++ "m " ++ twoDigits s ++ "s") (1 / 2)

/-- The text shows the time `t` in normal form: what is read off it differs from `t` by half of its
last place at most. -/
def ShowsTime (text : String) (t : ℚ) : Prop :=
  ∃ p shown, IsNormalTime text p ∧ readSeconds? text = some shown ∧ |shown - t| ≤ p

theorem IsNormalTime.le_half {text : String} {p : ℚ} (h : IsNormalTime text p) : p ≤ 1 / 2 := by
  cases h with
  | seconds => norm_num
  | minutes => exact le_rfl
  | hours => exact le_rfl

theorem not_isNormalTime_sixty {p : ℚ} : ¬ IsNormalTime "60.0s" p := by
  intro h
  generalize htext : "60.0s" = text at h
  have hminutes : 'm' ∉ text.toList := by
    rw [← htext]
    decide
  cases h with
  | @seconds s tenths hs _ =>
    have hwhole : "60.0s".toList.takeWhile Char.isDigit = Nat.toDigits 10 s := by
      rw [htext]
      simp only [String.toList_append, Nat.toString_eq_ofList_toDigits, String.toList_ofList,
        List.append_assoc]
      exact takeWhile_isDigit_append _ (fun _ ↦ isDigit_of_mem_toDigits) (by rintro _ ⟨⟩; rfl)
    have hvalue := congrArg digitsValue hwhole
    rw [digitsValue_toDigits] at hvalue
    have hsixty : s = 60 := hvalue.symm
    omega
  | minutes => exact hminutes (by simp)
  | hours => exact hminutes (by simp)

theorem paddedDigits_one {n : ℕ} (h : n < 10) : FixedPoint.paddedDigits 1 n = toString n := by
  revert n
  decide +kernel

theorem paddedDigits_two {n : ℕ} (h : n < 60) : FixedPoint.paddedDigits 2 n = twoDigits n := by
  revert n
  decide +kernel

/-! ### The duration of so many seconds -/

namespace Duration

variable {t t' : ℚ}

theorem isNormalTime_seconds {units : ℕ} (h : units < 600) :
    IsNormalTime (seconds (.finite false units)).text (1 / 20) := by
  have htext : (seconds (.finite false units)).text
      = toString (units / 10) ++ "." ++ toString (units % 10) ++ "s" := by
    rw [← paddedDigits_one (Nat.mod_lt units (by norm_num))]
    rw [text, FixedPoint.text, FixedPoint.signText, if_neg Bool.false_ne_true, String.empty_append]
  rw [htext]
  exact .seconds (by omega) (by omega)

/-- Whole seconds are carried over into minutes and hours. -/
theorem isNormalTime_ofWholeSeconds {n : ℕ} (h : 60 ≤ n) :
    IsNormalTime (ofWholeSeconds n).text (1 / 2) := by
  rw [ofWholeSeconds]
  split
  · rw [text, paddedDigits_two (by omega), paddedDigits_two (by omega)]
    exact .hours (by omega) (by omega) (by omega)
  · rw [text, paddedDigits_two (by omega)]
    exact .minutes (by omega) (by omega) (by omega)

theorem total?_ofWholeSeconds (n : ℕ) : (ofWholeSeconds n).total? = some (n : ℚ) := by
  have hhours : n / 3600 * 3600 + (n % 3600 / 60 * 60 + n % 3600 % 60) = n := by omega
  have hminutes : n / 60 * 60 + n % 60 = n := by omega
  rw [ofWholeSeconds]
  split
  · rw [total?, Option.some_inj]
    exact_mod_cast hhours
  · rw [total?, Option.some_inj]
    exact_mod_cast hminutes

/-- The duration that `t` seconds are shown as. -/
def ofRat (t : ℚ) : Duration :=
  if t < 60 then seconds (.finite false (nearestEven (t * 10)).toNat)
  else ofWholeSeconds (nearestEven t).toNat

/-- The seconds that are shown for `t`. -/
def shownSeconds (t : ℚ) : ℚ := if t < 60 then nearestDecimal 1 t else nearestEven t

theorem cast_toNat_nearestEven (ht : 0 ≤ t) : ((nearestEven t).toNat : ℚ) = nearestEven t := by
  have hnonneg := Int.toNat_of_nonneg ((isNearestEven_nearestEven t).nonneg ht)
  exact_mod_cast hnonneg

theorem value?_tenths (ht : 0 ≤ t) :
    (FixedPoint.finite false (nearestEven (t * 10)).toNat : FixedPoint 1).value?
      = some (nearestDecimal 1 t) := by
  rw [FixedPoint.value?_finite, if_neg Bool.false_ne_true, nearestDecimal, pow_one,
    cast_toNat_nearestEven (by positivity)]

theorem total?_ofRat (ht : 0 ≤ t) : (ofRat t).total? = some (shownSeconds t) := by
  rw [ofRat, shownSeconds]
  split
  · exact value?_tenths ht
  · rw [total?_ofWholeSeconds, cast_toNat_nearestEven ht]

/-- A minute separates what is shown in tenths from what is shown in whole seconds. -/
theorem shownSeconds_mono (h : t ≤ t') : shownSeconds t ≤ shownSeconds t' := by
  have hminute : nearestDecimal 1 (60 : ℤ) = (nearestEven (60 : ℤ) : ℚ) := by
    rw [nearestDecimal_intCast, nearestEven_intCast]
  rw [shownSeconds, shownSeconds]
  split_ifs with hshort hshort'
  · exact nearestDecimal_mono 1 h
  · have hlow : t ≤ (60 : ℤ) := by exact_mod_cast hshort.le
    have hhigh : ((60 : ℤ) : ℚ) ≤ t' := by exact_mod_cast not_lt.mp hshort'
    calc nearestDecimal 1 t ≤ nearestDecimal 1 (60 : ℤ) := nearestDecimal_mono 1 hlow
      _ = (nearestEven (60 : ℤ) : ℚ) := hminute
      _ ≤ nearestEven t' := by exact_mod_cast nearestEven_mono hhigh
  · exact absurd (h.trans_lt ‹_›) hshort
  · exact_mod_cast nearestEven_mono h

theorem abs_shownSeconds_sub_le (t : ℚ) :
    |shownSeconds t - t| ≤ if t < 60 then 1 / 20 else 1 / 2 := by
  rw [shownSeconds]
  split
  · have hdecimal := abs_nearestDecimal_sub_le 1 t
    norm_num at hdecimal ⊢
    exact hdecimal
  · rw [abs_sub_comm]
    exact abs_sub_nearestEven_le t

/-- What is not rounded up to a minute in tenths is shown in normal form. -/
theorem isNormalTime_ofRat (h : t < 1199 / 20 ∨ 60 ≤ t) :
    IsNormalTime (ofRat t).text (if t < 60 then 1 / 20 else 1 / 2) := by
  rw [ofRat]
  split
  · next hshort =>
    have hunits : nearestEven (t * 10) < 600 := by
      by_contra hlarge
      have hnear := abs_le.mp (abs_sub_nearestEven_le (t * 10))
      have hlow := h.resolve_right (not_le.mpr hshort)
      have hlarge : (600 : ℚ) ≤ nearestEven (t * 10) := by exact_mod_cast not_lt.mp hlarge
      linarith
    exact isNormalTime_seconds (by omega)
  · next hlong =>
    have hwhole : nearestEven (60 : ℤ) ≤ nearestEven t :=
      nearestEven_mono (by exact_mod_cast not_lt.mp hlong)
    rw [nearestEven_intCast] at hwhole
    exact isNormalTime_ofWholeSeconds (by omega)

/-- What is rounded up to a minute in tenths is shown in tenths all the same. -/
theorem text_ofRat_of_le (h : 1199 / 20 ≤ t) (h' : t < 60) : (ofRat t).text = "60.0s" := by
  have hnear : |t * 10 - (600 : ℤ)| ≤ 1 / 2 := by
    rw [abs_le]
    push_cast
    constructor <;> linarith
  have hunits : nearestEven (t * 10) = 600 :=
    nearestEven_eq (hnear.lt_or_eq.imp_right fun htie ↦ ⟨htie, by decide⟩)
  rw [ofRat, if_pos h', hunits]
  rfl

/-- What counts as no time is replaced by zero: what is left has the value that is shown, and no
sign. -/
theorem denotes_total {x : Float} {q : ℚ} (hx : Denotes x q) :
    Denotes (if 0 < x then x else 0) (max q 0) ∧ HasSign false (if 0 < x then x else 0) := by
  by_cases hpos : 0 < x
  · have hq : 0 < q := (denotes_zero.lt_iff hx).mp hpos
    obtain ⟨m, e, hm, hparts⟩ := hx.exists_unpack_of_pos hq
    rw [if_pos hpos, max_eq_left hq.le]
    exact ⟨hx, hasSign_iff.mpr ⟨.positive, rfl, by rw [hparts]; rfl⟩⟩
  · have hq : q ≤ 0 := not_lt.mp (mt (denotes_zero.lt_iff hx).mpr hpos)
    rw [if_neg hpos, max_eq_right hq]
    exact ⟨denotes_zero, rfl⟩

theorem ofFloat_eq_tenths {x : Float} {q : ℚ} (hx : Denotes x q) (hsign : HasSign false x)
    (hq : 0 ≤ q) :
    FixedPoint.ofFloat 1 x = .finite false (nearestEven (q * 10)).toNat := by
  have hprinted : (FixedPoint.ofFloat 1 x).value? = some (nearestDecimal 1 q) :=
    FixedPoint.value?_ofFloat hx
  rcases hsign.ofFloat 1 with ⟨units, hunits⟩ | hinfinite
  · rw [hunits, ← value?_tenths hq] at hprinted
    rw [hunits, FixedPoint.finite_eq_of_value?_eq hprinted]
  · rw [hinfinite] at hprinted
    cases hprinted

/-- The duration of a finite float is that of its value, or of no time for a negative one. -/
theorem ofSeconds?_eq {x : Float} {q : ℚ} (hx : Denotes x q) :
    ofSeconds? x = .ok (ofRat (max q 0)) := by
  obtain ⟨hvalue, hsign⟩ := denotes_total hx
  have hminute : (if 0 < x then x else 0) < 60 ↔ max q 0 < 60 := by
    have hsixty : Denotes 60 60 := denotes_ofNat (n := 60) (by norm_num)
    exact hvalue.lt_iff hsixty
  simp only [ofSeconds?, hminute, ofRat]
  split
  · rw [ofFloat_eq_tenths hvalue hsign (le_max_right q 0)]
  · rw [hvalue.nearest?_eq]
    rfl

end Duration

/-! ### Numbers that become floats -/

variable {a : Quantity} {r : ℚ} {text : String}

theorem nearestBinary_max_zero (r : ℚ) : nearestBinary (max r 0) = max (nearestBinary r) 0 := by
  rcases le_total 0 r with hr | hr
  · rw [max_eq_left hr, max_eq_left (nearestBinary_nonneg hr)]
  · have hneg := nearestBinary_nonneg (neg_nonneg.mpr hr)
    rw [nearestBinary_neg] at hneg
    rw [max_eq_right hr, max_eq_right (neg_nonneg.mp hneg), nearestBinary_zero]

theorem abs_lt_of_abs_le_two_pow (hr : |r| ≤ 2 ^ 53) : |r| < 2 ^ 1024 - 2 ^ 970 := by
  rw [← not_le, ← two_pow_le_abs_nearestBinary_iff, not_le]
  exact abs_nearestBinary_lt (hr.trans (pow_le_pow_right₀ one_le_two (by norm_num)))

namespace Quantity

theorem exists_toFloat?_iff (h : a.value? = some r) :
    (∃ x, a.toFloat? = .ok x) ↔ |r| < 2 ^ 1024 - 2 ^ 970 := by
  cases a with
  | whole n =>
    cases h
    exact exists_wholeFloat?_iff
  | real x =>
    have hx : Engraving.Denotes x r := h
    refine iff_of_true ⟨x, rfl⟩ ?_
    rw [← not_le, ← two_pow_le_abs_nearestBinary_iff, hx.nearestBinary_eq, not_le]
    exact hx.abs_lt

theorem denotes_of_toFloat? (h : a.value? = some r) {x : Float} (hx : a.toFloat? = .ok x) :
    Engraving.Denotes x (nearestBinary r) := by
  cases a with
  | whole n =>
    cases h
    exact denotes_of_wholeFloat? hx
  | real y =>
    cases hx
    have hy : Engraving.Denotes x r := h
    rwa [hy.nearestBinary_eq]

/-- An integer of at most 53 bits is a float, and so is whatever is given as a float. -/
theorem nearestBinary_eq_self_of_abs_le (h : a.value? = some r) (hr : |r| ≤ 2 ^ 53) :
    nearestBinary r = r := by
  cases a with
  | whole n =>
    cases h
    refine nearestBinary_eq_self (n := n) (e := 0) (by rw [zpow_zero, mul_one]) ?_ (by norm_num)
    exact_mod_cast hr
  | real x => exact Denotes.nearestBinary_eq h

/-- An integer that is no float is rounded to another integer, a second away at least. -/
theorem nearestBinary_eq_of_abs_sub_le (h : a.value? = some r)
    (hrange : |r| < 2 ^ 1024 - 2 ^ 970) (hr : 0 ≤ r)
    (hclose : |Duration.shownSeconds (nearestBinary r) - r| ≤ 1 / 2) : nearestBinary r = r := by
  rcases le_or_gt r (2 ^ 53) with hsmall | hlarge
  · exact nearestBinary_eq_self_of_abs_le h (by rwa [abs_of_nonneg hr])
  cases a with
  | real x => exact Denotes.nearestBinary_eq h
  | whole n =>
    cases h
    obtain ⟨x, hx⟩ := exists_wholeFloat?_iff.mpr hrange
    have hmono : (2 : ℚ) ^ 53 ≤ nearestBinary n := by
      have hpower : nearestBinary (2 ^ 53) = 2 ^ 53 :=
        nearestBinary_eq_self (n := 2 ^ 53) (e := 0) (by norm_num) (by norm_num) (by norm_num)
      rw [← hpower]
      exact nearestBinary_mono (by positivity) hlarge.le
    rcases (denotes_of_wholeFloat? hx).eq_intCast_or_abs_lt with ⟨k, hk⟩ | hlt
    · have hlong : ¬ nearestBinary n < 60 := by
        rw [not_lt]
        linarith
      rw [Duration.shownSeconds, if_neg hlong, hk, nearestEven_intCast] at hclose
      have hsame : k = n := by
        by_contra hne
        have hone : (1 : ℚ) ≤ |(k : ℚ) - n| := by
          exact_mod_cast Int.one_le_abs (sub_ne_zero.mpr hne)
        linarith
      rw [hk, hsame]
    · exact absurd hmono (not_le.mpr ((le_abs_self _).trans_lt hlt))

end Quantity

/-! ### Times that are shown -/

theorem durationText?_eq_ok_iff (h : a.value? = some r) :
    durationText? a = .ok text ↔ |r| < 2 ^ 1024 - 2 ^ 970 ∧
      text = (Duration.ofRat (nearestBinary (max r 0))).text := by
  rw [durationText?, bind_eq_ok_iff, ← Quantity.exists_toFloat?_iff h]
  have hshown {x : Float} (hx : a.toFloat? = .ok x) :
      (Duration.ofSeconds? x >>= fun d ↦ Except.ok d.text)
        = .ok (Duration.ofRat (nearestBinary (max r 0))).text := by
    rw [Duration.ofSeconds?_eq (Quantity.denotes_of_toFloat? h hx), nearestBinary_max_zero]
    rfl
  constructor
  · rintro ⟨x, hx, htext⟩
    exact ⟨⟨x, hx⟩, (Except.ok.inj ((hshown hx).symm.trans htext)).symm⟩
  · rintro ⟨⟨x, hx⟩, rfl⟩
    exact ⟨x, hx, hshown hx⟩

theorem readSeconds?_ofRat (r : ℚ) :
    readSeconds? (Duration.ofRat (nearestBinary (max r 0))).text
      = some (Duration.shownSeconds (nearestBinary (max r 0))) :=
  Duration.readSeconds?_text (Duration.total?_ofRat (nearestBinary_nonneg (le_max_right r 0)))

/-- What it takes for `r` seconds to be shown in normal form. -/
structure IsShowable (r : ℚ) : Prop where
  range : |r| < 2 ^ 1024 - 2 ^ 970
  /-- They are a float, unless they count as no time. -/
  isFloat : nearestBinary (max r 0) = max r 0
  /-- They are not rounded up to a minute in tenths. -/
  carry : r < 1199 / 20 ∨ 60 ≤ r

/-- Of a float only the last condition has to be asked. -/
theorem Denotes.isShowable_iff {x : Float} (hx : Denotes x r) :
    IsShowable r ↔ r < 1199 / 20 ∨ 60 ≤ r := by
  have hreal : (Quantity.real x).value? = some r := hx
  constructor
  · exact IsShowable.carry
  · intro hcarry
    refine ⟨(Quantity.exists_toFloat?_iff hreal).mp ⟨x, rfl⟩, ?_, hcarry⟩
    rw [nearestBinary_max_zero, hx.nearestBinary_eq]

theorem durationText?_eq_sixty (h : a.value? = some r) (hr : 1199 / 20 ≤ r) (hr' : r < 60) :
    durationText? a = .ok "60.0s" := by
  have hnonneg : 0 ≤ r := le_trans (by norm_num) hr
  have hsmall : |r| ≤ 2 ^ 53 := by
    rw [abs_of_nonneg hnonneg]
    exact hr'.le.trans (by norm_num)
  have hfloat : nearestBinary (max r 0) = r := by
    rw [max_eq_left hnonneg]
    exact Quantity.nearestBinary_eq_self_of_abs_le h hsmall
  refine (durationText?_eq_ok_iff h).mpr ⟨abs_lt_of_abs_le_two_pow hsmall, ?_⟩
  rw [hfloat, Duration.text_ofRat_of_le hr hr']

theorem ShowsTime.isShowable (hshows : ShowsTime text (max r 0)) (h : a.value? = some r)
    (htext : durationText? a = .ok text) : IsShowable r := by
  obtain ⟨p, shown, hnormal, hread, hclose⟩ := hshows
  obtain ⟨hrange, rfl⟩ := (durationText?_eq_ok_iff h).mp htext
  obtain rfl := Option.some.inj ((readSeconds?_ofRat r).symm.trans hread)
  refine ⟨hrange, ?_, ?_⟩
  · rcases le_total 0 r with hr | hr
    · rw [max_eq_left hr] at hclose ⊢
      exact Quantity.nearestBinary_eq_of_abs_sub_le h hrange hr (hclose.trans hnormal.le_half)
    · rw [max_eq_right hr, nearestBinary_zero]
  · by_contra hcarry
    obtain ⟨hlow, hhigh⟩ := not_or.mp hcarry
    have hsixty := durationText?_eq_sixty h (not_lt.mp hlow) (not_le.mp hhigh)
    rw [Except.ok.inj (htext.symm.trans hsixty)] at hnormal
    exact not_isNormalTime_sixty hnormal

theorem IsShowable.exists_showsTime (hshowable : IsShowable r) (h : a.value? = some r) :
    ∃ text, durationText? a = .ok text ∧ ShowsTime text (max r 0) := by
  obtain ⟨hrange, hfloat, hcarry⟩ := hshowable
  have hread := readSeconds?_ofRat r
  have htext := (durationText?_eq_ok_iff h).mpr ⟨hrange, rfl⟩
  rw [hfloat] at hread htext
  have hcarry : max r 0 < 1199 / 20 ∨ 60 ≤ max r 0 :=
    hcarry.imp (fun hlow ↦ max_lt hlow (by norm_num)) fun hhigh ↦ hhigh.trans (le_max_left r 0)
  exact ⟨_, htext, _, _, Duration.isNormalTime_ofRat hcarry, hread,
    Duration.abs_shownSeconds_sub_le _⟩

theorem exists_readSeconds?_le {b : Quantity} {q : ℚ} {text' : String} (h : a.value? = some r)
    (h' : b.value? = some q) (hle : r ≤ q) (htext : durationText? a = .ok text)
    (htext' : durationText? b = .ok text') :
    ∃ shown shown', readSeconds? text = some shown ∧ readSeconds? text' = some shown' ∧
      shown ≤ shown' := by
  obtain ⟨-, rfl⟩ := (durationText?_eq_ok_iff h).mp htext
  obtain ⟨-, rfl⟩ := (durationText?_eq_ok_iff h').mp htext'
  refine ⟨_, _, readSeconds?_ofRat r, readSeconds?_ofRat q, Duration.shownSeconds_mono ?_⟩
  exact nearestBinary_mono (le_max_right r 0) (max_le_max_right 0 hle)

/-- **Which times are shown in normal form, and as what the others are shown.** -/
theorem exists_showsTime_iff (h : a.value? = some r) :
    ((∃ text, durationText? a = .ok text ∧ ShowsTime text (max r 0)) ↔ IsShowable r) ∧
      (1199 / 20 ≤ r → r < 60 → durationText? a = .ok "60.0s") ∧
      ∀ {b : Quantity} {q : ℚ} {text text' : String}, b.value? = some q → r ≤ q →
        durationText? a = .ok text → durationText? b = .ok text' →
          ∃ shown shown', readSeconds? text = some shown ∧ readSeconds? text' = some shown' ∧
            shown ≤ shown' := by
  refine ⟨⟨?_, fun hshowable ↦ hshowable.exists_showsTime h⟩, durationText?_eq_sixty h, ?_⟩
  · rintro ⟨text, htext, hshows⟩
    exact hshows.isShowable h htext
  · intro b q text text' h' hle htext htext'
    exact exists_readSeconds?_le h h' hle htext htext'

theorem denotes_almostMinute : Denotes 59.96875 (1919 / 32) := by
  have hround : IsRounded 59.96875 ((5996875 : ℕ) / 10 ^ 5) :=
    isRounded_ofScientific 5996875 true (k := 5) (by norm_num)
  have hvalue : ((5996875 : ℕ) / 10 ^ 5 : ℚ) = 1919 / 32 := by norm_num
  have hfloat : nearestBinary (1919 / 32) = 1919 / 32 :=
    nearestBinary_eq_self (n := 1919) (e := -5) (by norm_num) (by norm_num) (by norm_num)
  have hsmall : |(1919 / 32 : ℚ)| ≤ 2 ^ 6 := by norm_num
  rw [hvalue] at hround
  have hdenotes := hround.denotes
    (abs_nearestBinary_lt (hsmall.trans (pow_le_pow_right₀ one_le_two (by norm_num))))
  rwa [hfloat] at hdenotes

/-- Just below a minute sixty seconds are shown, and that is not normal. A minute is shown as one. -/
theorem not_showsTime_almostMinute :
    (Quantity.real 59.96875).value? = some (1919 / 32) ∧
      durationText? (.real 59.96875) = .ok "60.0s" ∧
      (¬ ∃ text, durationText? (.real 59.96875) = .ok text ∧ ShowsTime text (max (1919 / 32) 0)) ∧
      (Quantity.whole 60).value? = some 60 ∧
      ∃ text, durationText? (.whole 60) = .ok text ∧ ShowsTime text (max 60 0) := by
  have hvalue : (Quantity.real 59.96875).value? = some (1919 / 32) := denotes_almostMinute
  have hminute : (Quantity.whole 60).value? = some 60 := rfl
  obtain ⟨hnormal, hsixty, -⟩ := exists_showsTime_iff hvalue
  refine ⟨hvalue, hsixty (by norm_num) (by norm_num), ?_, hminute, ?_⟩
  · rw [hnormal, denotes_almostMinute.isShowable_iff]
    norm_num
  · have hsmall : |(60 : ℚ)| ≤ 2 ^ 53 := by norm_num
    refine (exists_showsTime_iff hminute).1.mpr ⟨abs_lt_of_abs_le_two_pow hsmall, ?_, .inr le_rfl⟩
    rw [max_eq_left (by norm_num)]
    exact Quantity.nearestBinary_eq_self_of_abs_le hminute hsmall

end

end Engraving
