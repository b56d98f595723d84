import Engraving.Number.Quantity
import Engraving.Proofs.Number.DecimalText

/-!
# Numbers as they are written and typed

Which characters occur in a number that is written, and what is read off one that is typed.
-/

namespace Engraving

/-! ## The characters of written numbers

Whatever a number is, few characters occur in its written form: digits, signs, the point, the `e` of
an exponent, and the letters of `inf` and `nan`. A remark that is put together from fixed words and
numbers therefore holds nothing that a machine could take for a command.
-/

def isNumberChar (c : Char) : Bool :=
  c.isDigit || ['+', '-', '.', 'a', 'e', 'f', 'i', 'n'].contains c

theorem isNumberChar_of_isDigit {c : Char} (h : c.isDigit = true) : isNumberChar c = true := by
  rw [isNumberChar, h, Bool.true_or]

theorem isNumberChar_of_isNumeral {c : Char} (h : isNumeral c = true) : isNumberChar c = true := by
  rw [isNumeral, Bool.or_eq_true, Bool.or_eq_true, beq_iff_eq, beq_iff_eq] at h
  rcases h with (h | rfl) | rfl
  · exact isNumberChar_of_isDigit h
  · decide
  · decide

/-- A text in which nothing but a number is written. -/
def IsNumberText (text : List Char) : Prop := ∀ c ∈ text, isNumberChar c = true

instance : DecidablePred IsNumberText := fun text ↦
  inferInstanceAs (Decidable (∀ c ∈ text, isNumberChar c = true))

namespace IsNumberText

variable {first second : List Char}

theorem append (h₁ : IsNumberText first) (h₂ : IsNumberText second) :
    IsNumberText (first ++ second) :=
  List.forall_mem_append.mpr ⟨h₁, h₂⟩

theorem cons {c : Char} (hc : isNumberChar c = true) (h : IsNumberText first) :
    IsNumberText (c :: first) :=
  List.forall_mem_cons.mpr ⟨hc, h⟩

theorem of_subset (h : IsNumberText second) (hsub : first ⊆ second) : IsNumberText first :=
  fun c hc ↦ h c (hsub hc)

theorem of_digits {digits : List Char} (h : ∀ c ∈ digits, c.isDigit = true) :
    IsNumberText digits :=
  fun c hc ↦ isNumberChar_of_isDigit (h c hc)

theorem toDigits (n : ℕ) : IsNumberText (Nat.toDigits 10 n) :=
  of_digits fun _ ↦ isDigit_of_mem_toDigits

theorem zeros (count : ℕ) : IsNumberText (List.replicate count '0') := by
  intro c hc
  rw [List.eq_of_mem_replicate hc]
  decide

end IsNumberText

/-! ### Integers and decimals -/

theorem isNumberText_natCast (n : ℕ) : IsNumberText (toString n).toList := by
  rw [Nat.toString_eq_ofList_toDigits, String.toList_ofList]
  exact .toDigits n

theorem isNumberText_intCast (n : ℤ) : IsNumberText (toString n).toList := by
  match n with
  | (n : ℕ) => exact isNumberText_natCast n
  | .negSucc n =>
    change IsNumberText ("-" ++ (n + 1).repr).toList
    rw [String.toList_append, Nat.toList_repr]
    exact .append (by decide) (.toDigits _)

theorem FixedPoint.isNumberText {places : ℕ} (d : FixedPoint places) :
    IsNumberText d.text.toList := by
  match d with
  | .finite negative units =>
    exact fun c hc ↦ isNumberChar_of_isNumeral (isNumeral_of_mem_text_finite hc)
  | .infinite negative =>
    change IsNumberText (signText negative ++ "inf").toList
    cases negative <;> decide
  | .undefined =>
    change IsNumberText "nan".toList
    decide

/-! ### Shortest decimals -/

namespace Shortest

theorem isNumberText_trimZeros {digits : List Char} (h : IsNumberText digits) :
    IsNumberText (trimZeros digits) := by
  refine h.of_subset fun c hc ↦ ?_
  rw [trimZeros, List.mem_reverse] at hc
  exact List.mem_reverse.mp ((List.dropWhile_suffix _).subset hc)

theorem isNumberText_positional {digits : List Char} (h : IsNumberText digits) (point : ℤ) :
    IsNumberText (positional digits point).toList := by
  rw [positional]
  split
  · rw [String.toList_ofList]
    exact .cons (by decide) (.cons (by decide) (.append (.zeros _) h))
  · have hpadded (count : ℕ) : IsNumberText (digits ++ List.replicate count '0') :=
      h.append (.zeros count)
    simp only [String.toList_ofList]
    refine .append ((hpadded _).of_subset (List.take_subset _ _)) (.cons (by decide) ?_)
    split
    · decide
    · exact (hpadded _).of_subset (List.drop_subset _ _)

theorem isNumberText_scientific {digits : List Char} (h : IsNumberText digits) (exponent : ℤ) :
    IsNumberText (scientific digits exponent).toList := by
  have htail {mantissa : List Char} (hmantissa : IsNumberText mantissa) :
      IsNumberText (String.ofList (mantissa ++ 'e' :: (if exponent < 0 then '-' else '+') ::
        (List.replicate (2 - (Nat.toDigits 10 exponent.natAbs).length) '0' ++
          Nat.toDigits 10 exponent.natAbs))).toList := by
    rw [String.toList_ofList]
    refine .append hmantissa (.cons (by decide) (.cons ?_ (.append (.zeros _) (.toDigits _))))
    split <;> decide
  match digits, h with
  | [], h => exact htail h
  | [_], h => exact htail h
  | first :: next :: rest, h =>
    obtain ⟨hfirst, hrest⟩ := List.forall_mem_cons.mp h
    exact htail (.cons hfirst (.cons (by decide) hrest))

theorem isNumberText_layout (d : Decimal) : IsNumberText (layout d).toList := by
  have hdigits := isNumberText_trimZeros (IsNumberText.toDigits d.digits)
  rw [layout]
  split
  · decide
  · simp only
    split
    · exact isNumberText_positional hdigits _
    · exact isNumberText_scientific hdigits _

end Shortest

theorem isNumberText_shortestText (x : Float) : IsNumberText (shortestText x).toList := by
  rw [shortestText]
  match Exact.ofFloat x with
  | .finite negative significand exponent =>
    simp only [String.toList_append]
    refine .append ?_ (Shortest.isNumberText_layout _)
    cases negative <;> decide
  | .infinite negative => cases negative <;> decide
  | .undefined => decide

theorem Quantity.isNumberText {a : Quantity} {text : String} (h : a.text? = .ok text) :
    IsNumberText text.toList := by
  cases a with
  | real x =>
    cases h
    exact isNumberText_shortestText x
  | whole n =>
    rw [Quantity.text?] at h
    unfold wholeText? at h
    split at h
    · cases h
      exact isNumberText_intCast n
    · cases h

/-! ## Values as they are typed

The value of an address word is typed as a sign, digits with at most one point among them, and an
exponent; all but the digits may be missing, and so may the digits. A value with a digit is read as
the decimal that it writes, whatever its parts are, and zeros in front of its digits do not count.
-/

/-! ### Parts of a value -/

/-- The sign in front of a number, if there is one. -/
inductive SignMark where
  | none
  | plus
  | minus
  deriving DecidableEq, Repr

/-- The exponent of a value, without the mark in front of it. -/
structure ExponentText where
  sign : SignMark
  digits : List (Fin 10)
  digits_ne_nil : digits ≠ []
  deriving DecidableEq, Repr

/-- A value as it is typed. -/
structure ValueText where
  sign : SignMark
  whole : List (Fin 10)
  fraction? : Option (List (Fin 10))
  exponent? : Option ExponentText
  deriving DecidableEq, Repr

def digitsText (digits : List (Fin 10)) : List Char := digits.map fun d : Fin 10 ↦ d.val.digitChar

namespace SignMark

def text : SignMark → List Char
  | none => []
  | plus => ['+']
  | minus => ['-']

end SignMark

namespace ExponentText

/-- The exponent as it is typed behind a mark. -/
def text (mark : Char) (e : ExponentText) : List Char :=
  mark :: (e.sign.text ++ digitsText e.digits)

/-- The number that the exponent stands for. -/
def number (e : ExponentText) : ℤ :=
  Exact.signed (e.sign = .minus) (digitsValue (digitsText e.digits))

end ExponentText

namespace ValueText

def pointText (v : ValueText) : List Char := if v.fraction?.isSome then ['.'] else []

/-- The digits behind the point, none where there is no point. -/
def fraction (v : ValueText) : List (Fin 10) := v.fraction?.getD []

/-- The exponent as it is typed behind a mark. -/
def exponentText (mark : Char) (v : ValueText) : List Char :=
  (v.exponent?.map (·.text mark)).getD []

/-- The value as it is typed, with a mark in front of the exponent. -/
def text (mark : Char) (v : ValueText) : List Char :=
  v.sign.text ++ (digitsText v.whole ++ (v.pointText ++ (digitsText v.fraction ++
    v.exponentText mark)))

/-- The number that the exponent stands for. -/
def exponent (v : ValueText) : ℤ := (v.exponent?.map ExponentText.number).getD 0

def HasDigit (v : ValueText) : Prop := v.whole ++ v.fraction ≠ []

instance : DecidablePred HasDigit := fun v ↦
  inferInstanceAs (Decidable (v.whole ++ v.fraction ≠ []))

/-- The value with some more zeros in front of its digits. -/
def padded (v : ValueText) (count : ℕ) : ValueText :=
  { v with whole := List.replicate count 0 ++ v.whole }

/-- Two numbers that are typed alike but for the zeros in front. -/
def SameButZeros (v v' : ValueText) : Prop :=
  v.HasDigit ∧ v'.HasDigit ∧ ∃ (base : ValueText) (m n : ℕ), v = base.padded m ∧ v' = base.padded n

end ValueText

/-! ### Characters -/

theorem isDigit_of_mem_digitsText {digits : List (Fin 10)} {c : Char} (h : c ∈ digitsText digits) :
    c.isDigit = true := by
  have hdigit : ∀ d : Fin 10, d.val.digitChar.isDigit = true := by decide
  obtain ⟨d, -, rfl⟩ := List.mem_map.mp h
  exact hdigit d

theorem digitsText_append (first second : List (Fin 10)) :
    digitsText (first ++ second) = digitsText first ++ digitsText second := List.map_append

theorem length_digitsText (digits : List (Fin 10)) : (digitsText digits).length = digits.length :=
  List.length_map _

theorem digitsText_ne_nil {digits : List (Fin 10)} (h : digits ≠ []) : digitsText digits ≠ [] :=
  fun hnil ↦ h (List.map_eq_nil_iff.mp hnil)

theorem digitsValue_replicate_append (count : ℕ) (digits : List (Fin 10)) :
    digitsValue (digitsText (List.replicate count 0 ++ digits))
      = digitsValue (digitsText digits) := by
  have hzeros : digitsText (List.replicate count 0) = List.replicate count '0' :=
    List.map_replicate
  rw [digitsText_append, hzeros, digitsValue_append, digitsValue_eq_ofDigitChars,
    Nat.ofDigitChars_replicate_zero, mul_zero, mul_zero, zero_add]

namespace SignMark

theorem eq_of_mem_text {s : SignMark} {c : Char} (h : c ∈ s.text) : c = '+' ∨ c = '-' := by
  cases s with
  | none => cases h
  | plus => exact .inl (List.mem_singleton.mp h)
  | minus => exact .inr (List.mem_singleton.mp h)

theorem splitSign_text_append (s : SignMark) {rest : List Char}
    (h : ∀ c ∈ rest.head?, c ≠ '+' ∧ c ≠ '-') :
    splitSign (s.text ++ rest) = (decide (s = .minus), rest) := by
  cases s with
  | none =>
    rw [text, List.nil_append]
    match rest with
    | [] => rfl
    | c :: rest =>
      obtain ⟨hplus, hminus⟩ := h c rfl
      rw [splitSign]
      · rfl
      · rintro _ ⟨⟩
        exact hminus rfl
      · rintro _ ⟨⟩
        exact hplus rfl
  | plus => rfl
  | minus => rfl

end SignMark

namespace ValueText

variable {v : ValueText} {mark c : Char}

theorem eq_of_head?_exponentText (h : c ∈ (v.exponentText mark).head?) : c = mark := by
  rw [exponentText] at h
  cases hexponent : v.exponent? with
  | none =>
    rw [hexponent] at h
    cases h
  | some e =>
    rw [hexponent] at h
    cases h
    rfl

theorem mem_pointText (h : c ∈ v.pointText) : c = '.' := by
  rw [pointText] at h
  split at h
  · exact List.mem_singleton.mp h
  · cases h

theorem mem_exponentText (h : c ∈ v.exponentText mark) :
    c.isDigit = true ∨ c = '+' ∨ c = '-' ∨ c = mark := by
  rw [exponentText] at h
  cases hexponent : v.exponent? with
  | none =>
    rw [hexponent] at h
    cases h
  | some e =>
    rw [hexponent] at h
    rcases List.mem_cons.mp h with rfl | h
    · exact .inr (.inr (.inr rfl))
    · rcases List.mem_append.mp h with h | h
      · exact .inr ((SignMark.eq_of_mem_text h).imp_right .inl)
      · exact .inl (isDigit_of_mem_digitsText h)

theorem mem_text (h : c ∈ v.text mark) :
    c.isDigit = true ∨ c = '+' ∨ c = '-' ∨ c = '.' ∨ c = mark := by
  rw [text, List.mem_append, List.mem_append, List.mem_append, List.mem_append] at h
  rcases h with h | h | h | h | h
  · exact .inr ((SignMark.eq_of_mem_text h).imp_right .inl)
  · exact .inl (isDigit_of_mem_digitsText h)
  · exact .inr (.inr (.inr (.inl (mem_pointText h))))
  · exact .inl (isDigit_of_mem_digitsText h)
  · exact (mem_exponentText h).imp_right (Or.imp_right (Or.imp_right .inr))

/-! ### Reading -/

theorem pointText_eq (v : ValueText) :
    v.pointText = ['.'] ∨ v.pointText = [] ∧ digitsText v.fraction = [] := by
  rw [pointText, fraction]
  cases v.fraction? with
  | none => exact .inr ⟨rfl, rfl⟩
  | some f => exact .inl rfl

theorem readExponent?_exponentText (v : ValueText) :
    readExponent? (v.exponentText 'E') = some v.exponent := by
  rw [exponentText, exponent]
  cases v.exponent? with
  | none => rfl
  | some e =>
    have hnonempty : digitsText e.digits ≠ [] := digitsText_ne_nil e.digits_ne_nil
    have hsign : splitSign (e.sign.text ++ digitsText e.digits)
        = (decide (e.sign = .minus), digitsText e.digits) := by
      refine e.sign.splitSign_text_append fun c hc ↦ ?_
      have hdigit := isDigit_of_mem_digitsText (List.mem_of_mem_head? hc)
      constructor <;> rintro rfl <;> cases hdigit
    have hdigits : (digitsText e.digits).all Char.isDigit = true :=
      List.all_eq_true.mpr fun _ ↦ isDigit_of_mem_digitsText
    rw [Option.map_some, Option.getD_some, ExponentText.text, readExponent?]
    simp only [hsign, hdigits, List.isEmpty_eq_false_iff.mpr hnonempty]
    rfl

/-- A value with a digit is read as the decimal that it writes. -/
theorem readFloat?_text (h : v.HasDigit) :
    readFloat? (v.text 'E') = some
      (if v.sign = .minus then
        -decimalFloat (digitsValue (digitsText (v.whole ++ v.fraction)))
          (v.exponent - v.fraction.length)
      else
        decimalFloat (digitsValue (digitsText (v.whole ++ v.fraction)))
          (v.exponent - v.fraction.length)) := by
  have hnonempty : digitsText v.whole ++ digitsText v.fraction ≠ [] := by
    rw [← digitsText_append]
    exact digitsText_ne_nil h
  -- All characters are ASCII and none is a blank, so nothing is cut off or replaced.
  have hrange : ∀ c ∈ v.text 'E', 32 < c.toNat ∧ c.toNat < 95 := by
    intro c hc
    rcases mem_text hc with hdigit | rfl | rfl | rfl | rfl
    · have hnumeral := toNat_of_isNumeral (isNumeral_of_isDigit hdigit)
      omega
    all_goals decide
  have hsign : splitSign (v.text 'E') = (decide (v.sign = .minus),
      digitsText v.whole ++ (v.pointText ++ (digitsText v.fraction ++ v.exponentText 'E'))) := by
    refine v.sign.splitSign_text_append fun c hc ↦ ?_
    obtain ⟨d, hd, hkind⟩ := exists_head?_of_digits (fun _ ↦ isDigit_of_mem_digitsText)
      v.pointText_eq hnonempty (digitsText v.fraction ++ v.exponentText 'E')
    obtain rfl : d = c := Option.some.inj (hd.symm.trans hc)
    rcases hkind with hdigit | rfl
    · constructor <;> rintro rfl <;> cases hdigit
    · decide
  have hmagnitude := readMagnitude?_append (fun _ ↦ isDigit_of_mem_digitsText)
    (fun _ ↦ isDigit_of_mem_digitsText) v.pointText_eq hnonempty
    (fun _ ↦ eq_of_head?_exponentText) v.readExponent?_exponentText
  rw [← digitsText_append, length_digitsText] at hmagnitude
  rw [readFloat?_eq hrange hsign, hmagnitude]
  by_cases hminus : v.sign = .minus
  · rw [decide_eq_true hminus, if_pos hminus]
    rfl
  · rw [decide_eq_false hminus, if_neg hminus]
    rfl

/-- Zeros in front of the digits do not change what is read. -/
theorem SameButZeros.readFloat?_eq {v' : ValueText} (h : v.SameButZeros v') :
    readFloat? (v.text 'E') = readFloat? (v'.text 'E') := by
  obtain ⟨hv, hv', base, m, n, rfl, rfl⟩ := h
  have hdigits (count : ℕ) :
      digitsValue (digitsText ((base.padded count).whole ++ (base.padded count).fraction))
        = digitsValue (digitsText (base.whole ++ base.fraction)) := by
    rw [padded, List.append_assoc]
    exact digitsValue_replicate_append count (base.whole ++ base.fraction)
  rw [readFloat?_text hv, readFloat?_text hv', hdigits, hdigits]
  rfl

end ValueText

end Engraving
