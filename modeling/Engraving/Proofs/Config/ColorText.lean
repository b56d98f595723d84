import Engraving.Config.Loading
import Engraving.Proofs.Text.Lines
import Mathlib.Data.List.Basic

/-!
# The texts of colours

Six hexadecimal digits are a colour, with blanks around them and with a hash sign in front of them
or without. The form in which the colour is kept has the hash sign and the digits in upper case, and
its digits denote the same number.
-/

namespace Engraving

/-! ## Digits -/

/-- A hexadecimal digit in upper case. -/
def IsUpperHex (c : Char) : Prop := ('0' ≤ c ∧ c ≤ '9') ∨ ('A' ≤ c ∧ c ≤ 'F')

/-- A hexadecimal digit in either case. -/
def IsHex (c : Char) : Prop := IsUpperHex c ∨ ('a' ≤ c ∧ c ≤ 'f')

instance : DecidablePred IsUpperHex := fun _ ↦ inferInstanceAs (Decidable (_ ∨ _))

instance : DecidablePred IsHex := fun _ ↦ inferInstanceAs (Decidable (_ ∨ _))

theorem isHexDigit_iff {c : Char} : isHexDigit c = true ↔ IsHex c := by
  have hdigit : c.isDigit = true ↔ '0' ≤ c ∧ c ≤ '9' := by
    rw [Char.isDigit, Bool.and_eq_true, decide_eq_true_iff, decide_eq_true_iff]
    exact Iff.rfl
  rw [IsHex, IsUpperHex, ← hdigit, isHexDigit, hexDigit?]
  split_ifs with hdec hlower hupper
  · exact iff_of_true rfl (.inl (.inl hdec))
  · rw [Bool.and_eq_true, decide_eq_true_iff, decide_eq_true_iff] at hlower
    exact iff_of_true rfl (.inr hlower)
  · rw [Bool.and_eq_true, decide_eq_true_iff, decide_eq_true_iff] at hupper
    exact iff_of_true rfl (.inl (.inr hupper))
  · rw [Bool.and_eq_true, decide_eq_true_iff, decide_eq_true_iff] at hlower hupper
    exact iff_of_false Bool.noConfusion fun h ↦ h.elim (fun h ↦ h.elim hdec hupper) hlower

theorem IsHex.toNat_lt {c : Char} (h : IsHex c) : c.toNat < 128 := by
  have hle {high : Char} (hhigh : high.toNat < 128) (h : c ≤ high) : c.toNat < 128 :=
    lt_of_le_of_lt (show c.toNat ≤ high.toNat from h) hhigh
  rcases h with (h | h) | h
  · exact hle (by decide) h.2
  · exact hle (by decide) h.2
  · exact hle (by decide) h.2

/-- Hexadecimal digits are among the first characters, which can be looked at one by one. -/
theorem IsHex.of_forall {c : Char} (hc : IsHex c) (P : Char → Prop)
    (hP : ∀ n < 128, IsHex (Char.ofNat n) → P (Char.ofNat n)) : P c := by
  have h := hP c.toNat hc.toNat_lt
  rw [Char.ofNat_toNat] at h
  exact h hc

theorem IsHex.isBlank_eq_false {c : Char} (h : IsHex c) : isBlank c = false :=
  h.of_forall (isBlank · = false) (by decide)

theorem IsHex.ne_hash {c : Char} (h : IsHex c) : c ≠ '#' := h.of_forall (· ≠ '#') (by decide)

theorem IsHex.isUpperHex_toUpper {c : Char} (h : IsHex c) : IsUpperHex c.toUpper :=
  h.of_forall (IsUpperHex ·.toUpper) (by decide)

theorem IsHex.hexDigit?_toUpper {c : Char} (h : IsHex c) : hexDigit? c.toUpper = hexDigit? c :=
  h.of_forall (fun c ↦ hexDigit? c.toUpper = hexDigit? c) (by decide)

theorem IsUpperHex.toUpper_eq {c : Char} (h : IsUpperHex c) : c.toUpper = c :=
  IsHex.of_forall (.inl h) (fun c ↦ IsUpperHex c → c.toUpper = c) (by decide) h

theorem hexValue_map_toUpper {digits : List Char} (h : ∀ d ∈ digits, IsHex d) :
    hexValue (digits.map Char.toUpper) = hexValue digits := by
  rw [hexValue, hexValue, List.foldl_map]
  refine List.foldl_ext _ _ _ fun n d hd ↦ ?_
  rw [(h d hd).hexDigit?_toUpper]

/-! ## Texts -/

/-- A text has six hexadecimal digits in it, apart from the blanks around them and a hash sign
before them. -/
structure IsColorText (text digits : List Char) : Prop where
  /-- What else the text has in it. -/
  shape : ∃ before hash after, text = before ++ (hash ++ digits) ++ after ∧
    (∀ c ∈ before, isBlank c = true) ∧ (hash = [] ∨ hash = ['#']) ∧ ∀ c ∈ after, isBlank c = true
  length : digits.length = 6
  hex : ∀ d ∈ digits, IsHex d

/-- The form in which a colour is kept, with the number that its digits denote. -/
def IsNormalColor (color : String) (value : ℕ) : Prop :=
  ∃ digits : List Char, color = String.ofList ('#' :: digits) ∧ digits.length = 6 ∧
    (∀ d ∈ digits, IsUpperHex d) ∧ hexValue digits = value

/-- The form in which a colour of some digits is kept. -/
def colorOf (digits : List Char) : String := String.ofList ('#' :: digits.map Char.toUpper)

variable {text digits : List Char}

theorem IsColorText.isNormalColor (h : IsColorText text digits) :
    IsNormalColor (colorOf digits) (hexValue digits) := by
  refine ⟨digits.map Char.toUpper, rfl, ?_, ?_, hexValue_map_toUpper h.hex⟩
  · rw [List.length_map, h.length]
  · intro d hd
    obtain ⟨c, hc, rfl⟩ := List.mem_map.mp hd
    exact (h.hex c hc).isUpperHex_toUpper

/-- A text is the text that is left of it when it is trimmed, with blanks around it. -/
theorem exists_eq_append_trim_append (text : List Char) : ∃ before after,
    text = before ++ trim text ++ after ∧
      (∀ c ∈ before, isBlank c = true) ∧ ∀ c ∈ after, isBlank c = true := by
  refine ⟨text.takeWhile isBlank, ((trimStart text).reverse.takeWhile isBlank).reverse, ?_, ?_, ?_⟩
  · have hend : trim text ++ ((trimStart text).reverse.takeWhile isBlank).reverse
        = trimStart text := by
      rw [trim, trimEnd, ← List.reverse_append, List.takeWhile_append_dropWhile,
        List.reverse_reverse]
    rw [List.append_assoc, hend, trimStart, List.takeWhile_append_dropWhile]
  · exact fun c hc ↦ List.mem_takeWhile_imp hc
  · exact fun c hc ↦ List.mem_takeWhile_imp (List.mem_reverse.mp hc)

/-- What is trimmed are the blanks around a text that has none at its ends. -/
theorem trim_append {before after : List Char} (hbefore : ∀ c ∈ before, isBlank c = true)
    (hafter : ∀ c ∈ after, isBlank c = true) (hfirst : ∀ c ∈ text.head?, isBlank c = false)
    (hlast : ∀ c ∈ text.getLast?, isBlank c = false) (hne : text ≠ []) :
    trim (before ++ text ++ after) = text := by
  have hhead : ∀ c ∈ (text ++ after).head?, isBlank c = false := by
    obtain ⟨c, rest, rfl⟩ := List.exists_cons_of_ne_nil hne
    exact hfirst
  rw [trim, List.append_assoc, trimStart_append hbefore hhead, trimEnd_append hlast hafter]

theorem exists_eq_append_dropHash (text : List Char) :
    ∃ hash, text = hash ++ dropHash text ∧ (hash = [] ∨ hash = ['#']) := by
  rw [dropHash.eq_def]
  split
  · exact ⟨['#'], rfl, .inr rfl⟩
  · exact ⟨[], rfl, .inl rfl⟩

theorem dropHash_eq_self (h : ∀ c ∈ text.head?, c ≠ '#') : dropHash text = text := by
  rw [dropHash.eq_def]
  split
  · exact absurd rfl (h '#' rfl)
  · rfl

/-- The texts of colours are those of which six hexadecimal digits are left. -/
theorem isColorText_iff {s : String} :
    IsColorText s.toList digits ↔
      colorDigits s = digits ∧ digits.length = 6 ∧ ∀ d ∈ digits, IsHex d := by
  constructor
  · rintro ⟨⟨before, hash, after, hs, hbefore, hhash, hafter⟩, hlength, hhex⟩
    refine ⟨?_, hlength, hhex⟩
    have hsolid (c : Char) (hc : c ∈ hash ++ digits) : isBlank c = false := by
      rcases List.mem_append.mp hc with hc | hc
      · rcases hhash with rfl | rfl
        · cases hc
        · rw [List.mem_singleton.mp hc]
          decide
      · exact (hhex c hc).isBlank_eq_false
    have hne : hash ++ digits ≠ [] := by
      refine List.append_ne_nil_of_right_ne_nil _ (List.ne_nil_of_length_pos ?_)
      rw [hlength]
      decide
    rw [colorDigits, hs, trim_append hbefore hafter
      (fun c hc ↦ hsolid c (List.mem_of_mem_head? hc))
      (fun c hc ↦ hsolid c (List.mem_of_mem_getLast? hc)) hne]
    rcases hhash with rfl | rfl
    · exact dropHash_eq_self fun c hc ↦ (hhex c (List.mem_of_mem_head? hc)).ne_hash
    · rfl
  · rintro ⟨rfl, hlength, hhex⟩
    obtain ⟨before, after, hs, hbefore, hafter⟩ := exists_eq_append_trim_append s.toList
    obtain ⟨hash, htrim, hhash⟩ := exists_eq_append_dropHash (trim s.toList)
    refine ⟨⟨before, hash, after, ?_, hbefore, hhash, hafter⟩, hlength, hhex⟩
    rw [colorDigits, ← htrim, ← hs]

/-- **Which texts are colours**, and what becomes of them. -/
theorem toColor?_text_eq_ok_iff {s color : String} :
    (Document.text s).toColor? = .ok color ↔
      ∃ digits, IsColorText s.toList digits ∧ color = colorOf digits := by
  have hguard : (colorDigits s).length = 6 && (colorDigits s).all isHexDigit
      ↔ (colorDigits s).length = 6 ∧ ∀ d ∈ colorDigits s, IsHex d := by
    simp only [Bool.and_eq_true, decide_eq_true_iff, List.all_eq_true, isHexDigit_iff]
  have hnormal : normalColor? s = some color ↔
      ((colorDigits s).length = 6 ∧ ∀ d ∈ colorDigits s, IsHex d) ∧
        color = colorOf (colorDigits s) := by
    rw [normalColor?, ← hguard]
    split
    · next h => simp only [h, true_and, Option.some.injEq, colorOf, eq_comm]
    · next h => exact iff_of_false nofun fun h' ↦ h h'.1
  have hcolor : (Document.text s).toColor? = .ok color ↔ normalColor? s = some color := by
    rw [Document.toColor?]
    rcases normalColor? s with _ | found
    · exact iff_of_false nofun nofun
    · exact ⟨fun h ↦ congrArg some (Except.ok.inj h),
        fun h ↦ congrArg Except.ok (Option.some.inj h)⟩
  rw [hcolor, hnormal]
  simp only [isColorText_iff]
  constructor
  · rintro ⟨hdigits, rfl⟩
    exact ⟨_, ⟨rfl, hdigits⟩, rfl⟩
  · rintro ⟨_, ⟨rfl, hdigits⟩, rfl⟩
    exact ⟨hdigits, rfl⟩

/-- A colour in the form in which it is kept is taken as it is. -/
theorem IsNormalColor.toColor?_eq {color : String} {value : ℕ} (h : IsNormalColor color value) :
    (Document.text color).toColor? = .ok color := by
  obtain ⟨digits, rfl, hlength, hupper, -⟩ := h
  refine toColor?_text_eq_ok_iff.mpr ⟨digits, ⟨⟨[], ['#'], [], ?_, nofun, .inr rfl, nofun⟩, hlength,
    fun d hd ↦ .inl (hupper d hd)⟩, ?_⟩
  · rw [String.toList_ofList]
    simp
  · rw [colorOf, List.map_congr_left fun d hd ↦ (hupper d hd).toUpper_eq, List.map_id']

end Engraving
