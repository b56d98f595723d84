import Engraving.Number.Reading
import Engraving.Proofs.Number.FixedPoint

/-!
# Written decimals and their readings

A decimal is written as a sign, digits, a point and as many digits as it has places. There are two
ways to read it back: exactly, as the rational number that it is, and as a float, which is the exact
value rounded once. Both see the same digits, so both are decided by the shape of the text.
-/

namespace Engraving

/-! ## Characters of a text -/

section decidable

variable (p : Char → Prop) [DecidablePred p]

-- With a library instance that goes through all of Unicode in scope, the ones below keep `decide`
-- to the characters of the text.
instance (priority := 1100) decidableForallMemText (text : List Char) :
    Decidable (∀ c ∈ text, p c) :=
  List.decidableBAll p text

instance (priority := 1100) decidableForallMemChar? (c? : Option Char) :
    Decidable (∀ c ∈ c?, p c) :=
  Option.decidableForallMem c?

end decidable

/-! ## Digits -/

theorem digitsValue_eq_ofDigitChars (digits : List Char) :
    digitsValue digits = Nat.ofDigitChars 10 digits 0 :=
  Nat.ofDigitChars_eq_foldl.symm

theorem digitsValue_toDigits (n : ℕ) : digitsValue (Nat.toDigits 10 n) = n := by
  rw [digitsValue_eq_ofDigitChars, Nat.ofDigitChars_ten_toDigits]

theorem toDigits_inj {m n : ℕ} : Nat.toDigits 10 m = Nat.toDigits 10 n ↔ m = n := by
  refine ⟨fun h ↦ ?_, fun h ↦ h ▸ rfl⟩
  rw [← digitsValue_toDigits m, h, digitsValue_toDigits]

theorem digitsValue_append (first second : List Char) :
    digitsValue (first ++ second)
      = 10 ^ second.length * digitsValue first + digitsValue second := by
  rw [digitsValue_eq_ofDigitChars, digitsValue_eq_ofDigitChars, digitsValue_eq_ofDigitChars,
    Nat.ofDigitChars_append, Nat.ofDigitChars_eq_ofDigitChars_zero]

def isNumeral (c : Char) : Bool := c.isDigit || c == '-' || c == '.'

theorem isNumeral_of_isDigit {c : Char} (h : c.isDigit = true) : isNumeral c = true := by
  rw [isNumeral, h, Bool.true_or, Bool.true_or]

theorem toNat_of_isNumeral {c : Char} (h : isNumeral c = true) :
    45 ≤ c.toNat ∧ c.toNat ≤ 57 := by
  rw [isNumeral, Bool.or_eq_true, Bool.or_eq_true, beq_iff_eq, beq_iff_eq] at h
  rcases h with (h | rfl) | rfl
  · rw [Char.isDigit, Bool.and_eq_true, decide_eq_true_iff, decide_eq_true_iff] at h
    have hlow : 48 ≤ c.toNat := h.1
    have hhigh : c.toNat ≤ 57 := h.2
    omega
  · decide
  · decide

theorem isDigit_of_mem_toDigits {c : Char} {n : ℕ} (h : c ∈ Nat.toDigits 10 n) :
    c.isDigit = true :=
  Nat.isDigit_of_mem_toDigits (by norm_num) (by norm_num) h

namespace FixedPoint

theorem toList_paddedDigits (width n : ℕ) :
    (paddedDigits width n).toList
      = List.replicate (width - (Nat.toDigits 10 n).length) '0' ++ Nat.toDigits 10 n := by
  rw [paddedDigits, String.toList_ofList]

theorem isDigit_of_mem_paddedDigits {c : Char} {width n : ℕ}
    (h : c ∈ (paddedDigits width n).toList) : c.isDigit = true := by
  rw [toList_paddedDigits, List.mem_append] at h
  rcases h with h | h
  · rw [List.eq_of_mem_replicate h]
    rfl
  · exact isDigit_of_mem_toDigits h

theorem length_paddedDigits {width n : ℕ} (hwidth : 0 < width) (h : n < 10 ^ width) :
    (paddedDigits width n).toList.length = width := by
  have hlen : (Nat.toDigits 10 n).length ≤ width :=
    (Nat.length_toDigits_le_iff (by norm_num) hwidth).mpr h
  rw [toList_paddedDigits, List.length_append, List.length_replicate]
  omega

theorem digitsValue_paddedDigits (width n : ℕ) :
    digitsValue (paddedDigits width n).toList = n := by
  have hzeros (k : ℕ) : digitsValue (List.replicate k '0') = 0 := by
    rw [digitsValue_eq_ofDigitChars, Nat.ofDigitChars_replicate_zero, mul_zero]
  rw [toList_paddedDigits, digitsValue_append, hzeros, mul_zero, zero_add, digitsValue_toDigits]

/-! ## The shape of a written decimal -/

variable {places : ℕ}

def wholeDigits (places units : ℕ) : List Char := Nat.toDigits 10 (units / Nat.pow 10 places)

def fractionDigits (places units : ℕ) : List Char :=
  (paddedDigits places (units % Nat.pow 10 places)).toList

def signChars (negative : Bool) : List Char := if negative then ['-'] else []

theorem toList_text_finite (negative : Bool) (units : ℕ) :
    (finite negative units : FixedPoint places).text.toList
      = signChars negative ++ (wholeDigits places units ++ '.' :: fractionDigits places units) := by
  have hsign : (signText negative).toList = signChars negative := by cases negative <;> rfl
  rw [text, String.toList_append, String.toList_append, String.toList_append, hsign,
    Nat.toString_eq_ofList_toDigits, String.toList_ofList, List.append_assoc, List.append_assoc]
  rfl

theorem wholeDigits_ne_nil (units : ℕ) : wholeDigits places units ≠ [] := Nat.toDigits_ne_nil

theorem isDigit_of_mem_wholeDigits {units : ℕ} {c : Char} (h : c ∈ wholeDigits places units) :
    c.isDigit = true :=
  isDigit_of_mem_toDigits h

theorem isDigit_of_mem_fractionDigits {units : ℕ} {c : Char}
    (h : c ∈ fractionDigits places units) : c.isDigit = true :=
  isDigit_of_mem_paddedDigits h

theorem length_fractionDigits (hplaces : 0 < places) (units : ℕ) :
    (fractionDigits places units).length = places :=
  length_paddedDigits hplaces (Nat.mod_lt _ (Nat.pow_pos (by norm_num)))

theorem digitsValue_digits (hplaces : 0 < places) (units : ℕ) :
    digitsValue (wholeDigits places units ++ fractionDigits places units) = units := by
  rw [digitsValue_append, length_fractionDigits hplaces, wholeDigits, digitsValue_toDigits,
    fractionDigits, digitsValue_paddedDigits]
  exact Nat.div_add_mod units (10 ^ places)

theorem isNumeral_of_mem_text_finite {negative : Bool} {units : ℕ} {c : Char}
    (h : c ∈ (finite negative units : FixedPoint places).text.toList) : isNumeral c = true := by
  rw [toList_text_finite, List.mem_append, List.mem_append, List.mem_cons] at h
  rcases h with h | h | rfl | h
  · cases negative
    · cases h
    · rw [List.mem_singleton.mp h]
      rfl
  · exact isNumeral_of_isDigit (isDigit_of_mem_wholeDigits h)
  · rfl
  · exact isNumeral_of_isDigit (isDigit_of_mem_fractionDigits h)

end FixedPoint

/-! ## Exact reading -/

/-- The value of a numeral: perhaps a sign, digits, and perhaps a point with digits after it. -/
def exactValue? (text : List Char) : Option ℚ :=
  let (negative, unsigned) := splitSign text
  let signed (q : ℚ) := if negative then -q else q
  let whole := unsigned.takeWhile Char.isDigit
  match unsigned.dropWhile Char.isDigit with
  | [] => if whole.isEmpty then none else some (signed (digitsValue whole))
  | '.' :: fraction =>
    if whole.isEmpty || fraction.isEmpty || !fraction.all Char.isDigit then none
    else some (signed (digitsValue (whole ++ fraction) / 10 ^ fraction.length))
  | _ => none

theorem splitSign_signChars (negative : Bool) (text : List Char)
    (h : ∀ c ∈ text.head?, c.isDigit = true) :
    splitSign (FixedPoint.signChars negative ++ text) = (negative, text) := by
  cases negative
  · match text with
    | [] => rfl
    | c :: rest =>
      have hc : c.isDigit = true := h c rfl
      rw [FixedPoint.signChars, if_neg Bool.false_ne_true, List.nil_append, splitSign]
      · rintro _ ⟨⟩
        cases hc
      · rintro _ ⟨⟩
        cases hc
  · rfl

section digits

variable {digits : List Char} (rest : List Char)

theorem takeWhile_isDigit_append (h : ∀ c ∈ digits, c.isDigit = true)
    (hrest : ∀ c ∈ rest.head?, c.isDigit = false) :
    (digits ++ rest).takeWhile Char.isDigit = digits := by
  rw [List.takeWhile_append_of_pos h]
  match rest with
  | [] => exact List.append_nil digits
  | c :: _ =>
    rw [List.takeWhile_cons_of_neg (by rw [hrest c rfl]; exact Bool.false_ne_true),
      List.append_nil]

theorem dropWhile_isDigit_append (h : ∀ c ∈ digits, c.isDigit = true)
    (hrest : ∀ c ∈ rest.head?, c.isDigit = false) :
    (digits ++ rest).dropWhile Char.isDigit = rest := by
  rw [List.dropWhile_append_of_pos h]
  match rest with
  | [] => rfl
  | c :: _ => rw [List.dropWhile_cons_of_neg (by rw [hrest c rfl]; exact Bool.false_ne_true)]

end digits

theorem exactValue?_of_digits {digits : List Char} (hne : digits ≠ [])
    (h : ∀ c ∈ digits, c.isDigit = true) : exactValue? digits = some (digitsValue digits : ℚ) := by
  have htake := takeWhile_isDigit_append [] h (by simp)
  have hdrop := dropWhile_isDigit_append [] h (by simp)
  have hsign := splitSign_signChars false digits fun c hc ↦ h c (List.mem_of_mem_head? hc)
  rw [FixedPoint.signChars, if_neg Bool.false_ne_true, List.nil_append] at hsign
  rw [List.append_nil] at htake hdrop
  simp only [exactValue?, hsign, htake, hdrop]
  rw [if_neg (mt List.isEmpty_iff.mp hne), if_neg Bool.false_ne_true]

theorem exactValue?_toDigits (n : ℕ) : exactValue? (Nat.toDigits 10 n) = some (n : ℚ) := by
  rw [exactValue?_of_digits Nat.toDigits_ne_nil fun _ ↦ isDigit_of_mem_toDigits,
    digitsValue_toDigits]

namespace FixedPoint

variable {places : ℕ}

theorem head?_digits {units : ℕ} {rest : List Char} :
    ∀ c ∈ (wholeDigits places units ++ rest).head?, c.isDigit = true := by
  intro c hc
  rw [List.head?_append_of_ne_nil _ (wholeDigits_ne_nil units)] at hc
  exact isDigit_of_mem_wholeDigits (List.mem_of_mem_head? hc)

theorem takeWhile_text (units : ℕ) (rest : List Char) :
    (wholeDigits places units ++ '.' :: rest).takeWhile Char.isDigit
      = wholeDigits places units :=
  takeWhile_isDigit_append _ (fun _ ↦ isDigit_of_mem_wholeDigits) (by rintro c ⟨⟩; rfl)

theorem dropWhile_text (units : ℕ) (rest : List Char) :
    (wholeDigits places units ++ '.' :: rest).dropWhile Char.isDigit = '.' :: rest :=
  dropWhile_isDigit_append _ (fun _ ↦ isDigit_of_mem_wholeDigits) (by rintro c ⟨⟩; rfl)

/-- A written decimal is read as its value, and what is no decimal is not read. -/
theorem exactValue?_text (hplaces : 0 < places) (d : FixedPoint places) :
    exactValue? d.text.toList = d.value? := by
  match d with
  | .infinite negative =>
    change exactValue? (signText negative ++ "inf").toList = none
    cases negative <;> decide
  | .undefined =>
    change exactValue? "nan".toList = none
    decide
  | .finite negative units =>
    have hlength := length_fractionDigits hplaces units
    have hfraction : ¬ (fractionDigits places units).isEmpty = true := by
      rw [List.isEmpty_iff_length_eq_zero, hlength]
      exact hplaces.ne'
    have hwhole : ¬ (wholeDigits places units).isEmpty = true := by
      rw [List.isEmpty_iff]
      exact wholeDigits_ne_nil units
    have hall : (fractionDigits places units).all Char.isDigit = true :=
      List.all_eq_true.mpr fun _ ↦ isDigit_of_mem_fractionDigits
    rw [toList_text_finite, value?_finite]
    simp only [exactValue?, splitSign_signChars negative _ head?_digits, takeWhile_text,
      dropWhile_text, digitsValue_digits hplaces, hlength]
    rw [if_neg]
    rw [Bool.or_eq_true, Bool.or_eq_true, hall, not_or, not_or]
    exact ⟨⟨hwhole, hfraction⟩, Bool.false_ne_true⟩

end FixedPoint

/-! ## Reading as a float -/

/-- A decimal that is read as a float is rounded once. -/
theorem isRounded_decimalFloat (units : ℕ) {places : ℕ} (hpos : 0 < places)
    (hle : places ≤ 2048) :
    IsRounded (decimalFloat units (-places)) ((units : ℚ) / 10 ^ places) := by
  have hneg : decide ((-places : ℤ) < 0) = true := decide_eq_true (by omega)
  have h := isRounded_ofScientific units true hle
  rw [if_pos rfl] at h
  rwa [decimalFloat, hneg, Int.natAbs_neg, Int.natAbs_natCast]

section characters

variable {text : List Char}

theorem dropWhile_isNumberBlank (h : ∀ c ∈ text, 32 < c.toNat) :
    text.dropWhile isNumberBlank = text := by
  match text with
  | [] => rfl
  | c :: rest =>
    have hlow := h c List.mem_cons_self
    have hblank : ¬ isNumberBlank c = true := by
      rw [isNumberBlank, Bool.or_eq_true, Bool.and_eq_true, decide_eq_true_iff,
        decide_eq_true_iff, decide_eq_true_iff]
      rintro (rfl | ⟨-, hle⟩)
      · exact absurd hlow (by decide)
      · omega
    rw [List.dropWhile_cons_of_neg hblank]

theorem plainText_eq_map (h : ∀ c ∈ text, 32 < (plainChar c).toNat) :
    plainText text = text.map plainChar := by
  have hplain : ∀ c ∈ text.map plainChar, 32 < c.toNat := List.forall_mem_map.mpr h
  have hreverse : ∀ c ∈ (text.map plainChar).reverse, 32 < c.toNat :=
    fun c hc ↦ hplain c (List.mem_reverse.mp hc)
  rw [plainText]
  simp only [dropWhile_isNumberBlank hplain, dropWhile_isNumberBlank hreverse,
    List.reverse_reverse]

theorem plainChar_eq_self {c : Char} (h : c.toNat < 127) : plainChar c = c := by
  rw [plainChar, if_pos h]

theorem map_plainChar_eq_self (h : ∀ c ∈ text, c.toNat < 127) : text.map plainChar = text :=
  (List.map_congr_left fun c hc ↦ plainChar_eq_self (h c hc)).trans (List.map_id text)

theorem dropUnderscores_eq_self (h : '_' ∉ text) (p : Char → Bool) (after : Bool) :
    dropUnderscores p after text = some text := by
  induction text generalizing after with
  | nil => rfl
  | cons c rest ih =>
    obtain ⟨hc, hrest⟩ := not_or.mp (List.mem_cons.not.mp h)
    rw [dropUnderscores.eq_def]
    simp only [if_neg (Ne.symm hc)]
    rw [ih hrest, Option.map_some]

/-- Characters stand for ASCII characters between the blank and the underscore, and the number is
read from those. -/
theorem readFloat?_eq_of_plainChar
    (h : ∀ c ∈ text, 32 < (plainChar c).toNat ∧ (plainChar c).toNat < 95) {negative : Bool}
    {rest : List Char} (hsign : splitSign (text.map plainChar) = (negative, rest)) :
    readFloat? text
      = (readMagnitude? rest).map fun magnitude ↦ if negative then -magnitude else magnitude := by
  have hunderscore : '_' ∉ text.map plainChar := by
    intro hmem
    obtain ⟨c, hc, hplain⟩ := List.mem_map.mp hmem
    have hhigh := (h c hc).2
    rw [hplain] at hhigh
    exact absurd hhigh (by decide)
  rw [readFloat?, plainText_eq_map fun c hc ↦ (h c hc).1, dropUnderscores_eq_self hunderscore]
  change (do
    let (minus, rest) := splitSign (text.map plainChar)
    let magnitude ← readMagnitude? rest
    some (if minus then -magnitude else magnitude)) = _
  rw [hsign, Option.map_eq_bind]
  rfl

/-- The characters of a number stand between the blank and the underscore. -/
theorem readFloat?_eq (h : ∀ c ∈ text, 32 < c.toNat ∧ c.toNat < 95) {negative : Bool}
    {rest : List Char} (hsign : splitSign text = (negative, rest)) :
    readFloat? text
      = (readMagnitude? rest).map fun magnitude ↦ if negative then -magnitude else magnitude := by
  have hsmall : ∀ c ∈ text, c.toNat < 127 := fun c hc ↦ (h c hc).2.trans (by norm_num)
  refine readFloat?_eq_of_plainChar (fun c hc ↦ ?_) ?_
  · rw [plainChar_eq_self (hsmall c hc)]
    exact h c hc
  · rwa [map_plainChar_eq_self hsmall]

/-- A text that begins with a digit or a point is no name. -/
theorem ofList_map_toLower_ne {c : Char} (name : String) (htext : text.head? = some c)
    (hc : isNumeral c = true) (hname : ∀ d ∈ name.toList.head?, isNumeral d = false) :
    String.ofList (text.map Char.toLower) ≠ name := by
  rintro rfl
  have hlower : c.toLower = c := by
    rw [Char.toLower, dif_neg]
    rintro ⟨hupper, -⟩
    have hdigit := toNat_of_isNumeral hc
    have hle : 65 ≤ c.toNat := hupper
    omega
  have hhead := hname c.toLower (by rw [String.toList_ofList, List.head?_map, htext]; rfl)
  rw [hlower, hc] at hhead
  cases hhead

end characters

section parts

variable {whole fraction point exponent : List Char}

/-- What begins with digits, or with a point and digits, begins with a character of a number. -/
theorem exists_head?_of_digits (hwhole : ∀ c ∈ whole, c.isDigit = true)
    (hpoint : point = ['.'] ∨ point = [] ∧ fraction = []) (hne : whole ++ fraction ≠ [])
    (rest : List Char) :
    ∃ c, (whole ++ (point ++ rest)).head? = some c ∧ (c.isDigit = true ∨ c = '.') := by
  cases whole with
  | cons c whole => exact ⟨c, rfl, .inl (hwhole c List.mem_cons_self)⟩
  | nil =>
    rcases hpoint with rfl | ⟨rfl, rfl⟩
    · exact ⟨'.', rfl, .inr rfl⟩
    · exact absurd rfl hne

/-- Digits with a point and an exponent are read as the decimal that they write. -/
theorem readDecimal?_append (hwhole : ∀ c ∈ whole, c.isDigit = true)
    (hfraction : ∀ c ∈ fraction, c.isDigit = true)
    (hpoint : point = ['.'] ∨ point = [] ∧ fraction = []) (hne : whole ++ fraction ≠ [])
    (hhead : ∀ c ∈ exponent.head?, c = 'E') {n : ℤ} (hexponent : readExponent? exponent = some n) :
    readDecimal? (whole ++ (point ++ (fraction ++ exponent)))
      = some (decimalFloat (digitsValue (whole ++ fraction)) (n - fraction.length)) := by
  have hletter : ∀ c ∈ exponent.head?, c.isDigit = false := by
    intro c hc
    rw [hhead c hc]
    rfl
  have hbehind : ∀ c ∈ (point ++ (fraction ++ exponent)).head?, c.isDigit = false := by
    rcases hpoint with rfl | ⟨rfl, rfl⟩
    · rintro c ⟨⟩
      rfl
    · exact hletter
  have hnonempty : ¬ (whole.isEmpty && fraction.isEmpty) = true := by
    rw [Bool.and_eq_true, List.isEmpty_iff, List.isEmpty_iff, ← List.append_eq_nil_iff]
    exact hne
  rw [readDecimal?]
  simp only [takeWhile_isDigit_append _ hwhole hbehind, dropWhile_isDigit_append _ hwhole hbehind]
  rcases hpoint with rfl | ⟨rfl, rfl⟩
  · rw [List.singleton_append]
    simp only [takeWhile_isDigit_append _ hfraction hletter,
      dropWhile_isDigit_append _ hfraction hletter, if_neg hnonempty, hexponent, Option.map_some]
  · rw [List.nil_append, List.nil_append]
    -- Without a point what follows is the exponent, which begins with no point itself.
    split
    · exact absurd (hhead '.' rfl) (by decide)
    · simp only [if_neg hnonempty, hexponent, Option.map_some]

/-- A number without a sign is no name, but a decimal. -/
theorem readMagnitude?_append (hwhole : ∀ c ∈ whole, c.isDigit = true)
    (hfraction : ∀ c ∈ fraction, c.isDigit = true)
    (hpoint : point = ['.'] ∨ point = [] ∧ fraction = []) (hne : whole ++ fraction ≠ [])
    (hhead : ∀ c ∈ exponent.head?, c = 'E') {n : ℤ} (hexponent : readExponent? exponent = some n) :
    readMagnitude? (whole ++ (point ++ (fraction ++ exponent)))
      = some (decimalFloat (digitsValue (whole ++ fraction)) (n - fraction.length)) := by
  obtain ⟨c, hc, hkind⟩ := exists_head?_of_digits hwhole hpoint hne (fraction ++ exponent)
  have hnumeral : isNumeral c = true := by
    rcases hkind with hdigit | rfl
    · exact isNumeral_of_isDigit hdigit
    · rfl
  have hname (name : String) := ofList_map_toLower_ne name hc hnumeral
  rw [readMagnitude?]
  simp only [Bool.or_eq_true, decide_eq_true_iff]
  rw [if_neg (not_or.mpr ⟨hname "inf" (by decide), hname "infinity" (by decide)⟩),
    if_neg (hname "nan" (by decide)),
    readDecimal?_append hwhole hfraction hpoint hne hhead hexponent]

end parts

namespace FixedPoint

variable {places : ℕ}

theorem readFloat?_text (hplaces : 0 < places) (negative : Bool) (units : ℕ) :
    readFloat? (finite negative units : FixedPoint places).text.toList
      = some (if negative then -decimalFloat units (-places)
          else decimalFloat units (-places)) := by
  have hrange : ∀ c ∈ (finite negative units : FixedPoint places).text.toList,
      32 < c.toNat ∧ c.toNat < 95 := by
    intro c hc
    have hnumeral := toNat_of_isNumeral (isNumeral_of_mem_text_finite hc)
    omega
  have hsign : splitSign (finite negative units : FixedPoint places).text.toList
      = (negative, wholeDigits places units ++ '.' :: fractionDigits places units) := by
    rw [toList_text_finite, splitSign_signChars negative _ head?_digits]
  have hwhole : ∀ c ∈ wholeDigits places units, c.isDigit = true :=
    fun _ ↦ isDigit_of_mem_wholeDigits
  have hfraction : ∀ c ∈ fractionDigits places units, c.isDigit = true :=
    fun _ ↦ isDigit_of_mem_fractionDigits
  have hexponent : readExponent? [] = some 0 := rfl
  have hmagnitude := readMagnitude?_append hwhole hfraction (.inl rfl)
    (List.append_ne_nil_of_left_ne_nil (wholeDigits_ne_nil units) _) (by rintro c ⟨⟩) hexponent
  rw [List.append_nil, List.singleton_append, digitsValue_digits hplaces,
    length_fractionDigits hplaces, zero_sub] at hmagnitude
  rw [readFloat?_eq hrange hsign, hmagnitude, Option.map_some]

/-- A decimal is read as the float nearest to its value. -/
theorem exists_readFloat?_text (hpos : 0 < places) (hle : places ≤ 2048) {d : FixedPoint places}
    {v : ℚ} (hd : d.value? = some v) :
    ∃ x, readFloat? d.text.toList = some x ∧ IsRounded x v := by
  match d with
  | .infinite _ => cases hd
  | .undefined => cases hd
  | .finite negative units =>
    have hround := isRounded_decimalFloat units hpos hle
    rw [value?_finite] at hd
    rw [readFloat?_text hpos, ← Option.some.inj hd]
    cases negative
    · exact ⟨_, rfl, hround⟩
    · exact ⟨_, rfl, hround.neg⟩

end FixedPoint

/-! ## Reading what was printed of a float -/

section printed

variable {x : Float} {q : ℚ}

/-- Floats beyond a certain size are integers, so that printing loses nothing of them. -/
theorem Denotes.eq_intCast_or_abs_lt (hx : Denotes x q) : (∃ n : ℤ, q = n) ∨ |q| < 2 ^ 53 := by
  -- The exponent decides: from zero on the significand is scaled by a whole power of two.
  rcases hx.parts with ⟨rfl, -⟩ | ⟨s, m, e, hm, hcanonical, -, rfl, -⟩
  · exact Or.inl ⟨0, Int.cast_zero.symm⟩
  · rcases le_or_gt 0 e with he | he
    · left
      obtain ⟨k, rfl⟩ := Int.eq_ofNat_of_zero_le he
      refine ⟨s.apply (m * 2 ^ k : ℕ), ?_⟩
      rw [signedRat_apply]
      push_cast [zpow_natCast]
      rfl
    · right
      rw [abs_signedRat, abs_of_pos (mul_pos (by exact_mod_cast hm) (two_zpow_pos e))]
      calc (m : ℚ) * 2 ^ e < 2 ^ (e + 53) := hcanonical.abs_lt
        _ ≤ 2 ^ (53 : ℤ) := zpow_le_zpow_right₀ one_le_two (by omega)

theorem nearestDecimal_intCast (places : ℕ) (n : ℤ) : nearestDecimal places n = n := by
  have hscaled : (n : ℚ) * 10 ^ places = ((n * 10 ^ places : ℤ) : ℚ) := by push_cast; rfl
  have hpos : (0 : ℚ) < 10 ^ places := by positivity
  rw [nearestDecimal, hscaled, nearestEven_intCast]
  push_cast
  exact mul_div_cancel_right₀ _ hpos.ne'

/-- The decimal printed of a finite float never reads as an infinite one. -/
theorem Denotes.abs_nearestBinary_nearestDecimal_lt (hx : Denotes x q) (places : ℕ) :
    |nearestBinary (nearestDecimal places q)| < 2 ^ 1024 := by
  rcases hx.eq_intCast_or_abs_lt with ⟨n, rfl⟩ | hsmall
  · rw [nearestDecimal_intCast, hx.nearestBinary_eq]
    exact hx.abs_lt
  -- A float with a fraction is so small that half a unit of the last place cannot matter.
  · set d := nearestDecimal places q with hd
    have hhalf : (1 : ℚ) / 2 / 10 ^ places ≤ 1 / 2 :=
      div_le_self (by norm_num) (one_le_pow₀ (by norm_num))
    have hdecimal : |d| ≤ |q| + 1 / 2 := by
      have hsub := (abs_nearestDecimal_sub_le places q).trans hhalf
      have htri := abs_sub_abs_le_abs_sub d q
      linarith
    refine abs_nearestBinary_lt ?_
    calc |d| ≤ 2 ^ 54 := by linarith
      _ ≤ 2 ^ 1022 := pow_le_pow_right₀ one_le_two (by norm_num)

/-- What is printed of a finite float is read as a finite float again. -/
theorem Denotes.exists_readFloat? (hx : Denotes x q) {places : ℕ} (hpos : 0 < places)
    (hle : places ≤ 2048) :
    ∃ y, readFloat? (FixedPoint.ofFloat places x).text.toList = some y ∧
      Denotes y (nearestBinary (nearestDecimal places q)) := by
  obtain ⟨y, hread, hround⟩ :=
    FixedPoint.exists_readFloat?_text hpos hle (FixedPoint.value?_ofFloat hx)
  exact ⟨y, hread, hround.denotes (hx.abs_nearestBinary_nearestDecimal_lt places)⟩

end printed

end Engraving
