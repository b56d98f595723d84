import Engraving.Proofs.Except
import Engraving.Proofs.Text.Lines
import Engraving.Proofs.Toolpath.AddressWord
import Engraving.Proofs.Toolpath.LineReading

/-!
# Typed lines

There are many ways to type a line of words: letters may be small or capital, words may be glued
together or stand apart, there may be blanks around the line and a remark behind it, and codes may
have zeros in front. Whichever way is taken, the words that are read are those that were typed, save
for the zeros. The plainest way is one word per blank in upper case.
-/

namespace Engraving

/-! ## Ways to type a line -/

namespace AddressWord

/-- Two words that mean the same: they are equal but for the zeros in front of a code. -/
def IsVariant (v w : AddressWord) : Prop :=
  v.letter = w.letter ∧ (v.value = w.value ∨ w.letter = 'G' ∧ v.value.SameButZeros w.value)

/-- A text of the word in which each of its letters is small or capital. -/
def IsTypedAs (w : AddressWord) (piece : List Char) : Prop :=
  ∃ letter mark, (letter = w.letter ∨ letter = w.letter.toLower) ∧ (mark = 'E' ∨ mark = 'e') ∧
    piece = letter :: w.value.text mark

end AddressWord

/-- A line on which some words are typed. -/
inductive IsTypedLine (words : List AddressWord) : List Char → Prop
  | intro {variants : List AddressWord}
      (hvariants : List.Forall₂ AddressWord.IsVariant variants words)
      {pieces : List (List Char)} (hpieces : List.Forall₂ AddressWord.IsTypedAs variants pieces)
      {body : List Char} (hbody : IsSpaced pieces body)
      {lead trail : List Char} (hlead : ∀ c ∈ lead, isBlank c = true)
      (htrail : ∀ c ∈ trail, isBlank c = true)
      {remark : List Char} (hremark : ∀ c ∈ remark.head?, c = ';') :
      IsTypedLine words (lead ++ (body ++ (trail ++ remark)))

/-! ## Upper case -/

/-- What holds of the letters, one by one, holds of every letter. -/
theorem forall_isAddress {p : Char → Prop} (h : ∀ n < 26, p (Char.ofNat (65 + n))) {c : Char}
    (hc : Word.isAddress c = true) : p c := by
  obtain ⟨hlow, hhigh⟩ := toNat_of_isAddress hc
  have hletter := h (c.toNat - 65) (by omega)
  rwa [Nat.add_sub_cancel' hlow, Char.ofNat_toNat] at hletter

theorem upperCaseOf_toLower {c : Char} (h : Word.isAddress c = true) :
    upperCaseOf c.toLower = [c] :=
  forall_isAddress (p := fun c ↦ upperCaseOf c.toLower = [c]) (by decide) h

theorem isWordChar_toLower {c : Char} (h : Word.isAddress c = true) : isWordChar c.toLower = true :=
  forall_isAddress (p := fun c ↦ isWordChar c.toLower = true) (by decide) h

theorem upperCaseOf_of_isBlank {c : Char} (h : isBlank c = true) : upperCaseOf c = [c] := by
  have hblanks : ∀ n ∈ [0x85, 0xA0, 0x1680, 0x2028, 0x2029, 0x202F, 0x205F, 0x3000]
      ++ List.range' 0x2000 11, upperCaseOf (Char.ofNat n) = [Char.ofNat n] := by
    decide +kernel
  by_cases hsmall : c.toNat < 97
  · exact upperCaseOf_eq_self hsmall
  · have hmem : c.toNat ∈ [0x85, 0xA0, 0x1680, 0x2028, 0x2029, 0x202F, 0x205F, 0x3000]
        ++ List.range' 0x2000 11 := by
      simp only [isBlank, Bool.or_eq_true, Bool.and_eq_true, decide_eq_true_iff] at h
      simp only [List.mem_append, List.mem_cons, List.mem_range'_1]
      omega
    have hsame := hblanks c.toNat hmem
    rwa [Char.ofNat_toNat] at hsame

theorem upperCase_gap {gap : List Char} (h : ∀ c ∈ gap, isBlank c = true) : upperCase gap = gap :=
  upperCase_eq_self fun c hc ↦ upperCaseOf_of_isBlank (h c hc)

theorem upperCase_digitsText (digits : List (Fin 10)) :
    upperCase (digitsText digits) = digitsText digits := by
  refine upperCase_eq_self fun c hc ↦ upperCaseOf_eq_self ?_
  have hnumeral := toNat_of_isNumeral (isNumeral_of_isDigit (isDigit_of_mem_digitsText hc))
  omega

theorem SignMark.upperCase_text (s : SignMark) : upperCase s.text = s.text := by
  cases s <;> decide

theorem ValueText.upperCase_text (v : ValueText) {mark : Char} (h : mark = 'E' ∨ mark = 'e') :
    upperCase (v.text mark) = v.text 'E' := by
  have hmark : upperCaseOf mark = ['E'] := by rcases h with rfl | rfl <;> decide
  have hpoint : upperCase v.pointText = v.pointText := by
    rw [pointText]
    split <;> decide
  have hexponent : upperCase (v.exponentText mark) = v.exponentText 'E' := by
    rw [exponentText, exponentText]
    cases v.exponent? with
    | none => rfl
    | some e =>
      rw [Option.map_some, Option.getD_some, Option.map_some, Option.getD_some,
        ExponentText.text, ExponentText.text, upperCase, List.flatMap_cons, hmark, ← upperCase,
        upperCase_append, e.sign.upperCase_text, upperCase_digitsText, List.singleton_append]
  rw [text, text, upperCase_append, upperCase_append, upperCase_append, upperCase_append,
    v.sign.upperCase_text, upperCase_digitsText, hpoint, upperCase_digitsText, hexponent]

namespace AddressWord

variable {w : AddressWord} {piece : List Char}

/-- However a word is typed, it is the same in upper case. -/
theorem IsTypedAs.upperCase_eq (h : w.IsTypedAs piece) : upperCase piece = w.text := by
  obtain ⟨letter, mark, hletter, hmark, rfl⟩ := h
  have hupper : upperCaseOf letter = [w.letter] := by
    rcases hletter with rfl | rfl
    · refine upperCaseOf_eq_self ?_
      have hrange := toNat_of_isAddress w.isAddress
      omega
    · exact upperCaseOf_toLower w.isAddress
  rw [upperCase, List.flatMap_cons, hupper, ← upperCase, w.value.upperCase_text hmark]
  rfl

theorem isTypedAs_text (w : AddressWord) : w.IsTypedAs w.text :=
  ⟨w.letter, 'E', .inl rfl, .inl rfl, rfl⟩

theorem IsTypedAs.ne_nil (h : w.IsTypedAs piece) : piece ≠ [] := by
  obtain ⟨letter, mark, -, -, rfl⟩ := h
  exact List.cons_ne_nil _ _

theorem IsTypedAs.isWordChar (h : w.IsTypedAs piece) {c : Char} (hc : c ∈ piece) :
    isWordChar c = true := by
  obtain ⟨letter, mark, hletter, hmark, rfl⟩ := h
  rcases List.mem_cons.mp hc with rfl | hc
  · rcases hletter with rfl | rfl
    · exact isWordChar_of_isAddress w.isAddress
    · exact isWordChar_toLower w.isAddress
  · refine isWordChar_of_mem_valueText ?_ hc
    rcases hmark with rfl | rfl <;> decide

end AddressWord

theorem IsSpaced.upperCase {pieces : List (List Char)} {body : List Char}
    (h : IsSpaced pieces body) :
    IsSpaced (pieces.map Engraving.upperCase) (Engraving.upperCase body) := by
  induction h with
  | single piece => exact .single _
  | cons piece hgap _ ih =>
    rw [upperCase_append, upperCase_append, upperCase_gap hgap]
    exact .cons _ hgap ih

/-! ## The words of a line -/

namespace AddressWord

theorem IsVariant.refl (w : AddressWord) : w.IsVariant w := ⟨rfl, .inl rfl⟩

theorem IsVariant.isSome_exponent? {v w : AddressWord} (h : v.IsVariant w) :
    v.value.exponent?.isSome = w.value.exponent?.isSome := by
  obtain ⟨-, hvalue | ⟨-, -, -, base, m, n, hv, hw⟩⟩ := h
  · rw [hvalue]
  · rw [hv, hw]
    rfl

theorem isChain_of_isVariant {variants words : List AddressWord}
    (h : List.Forall₂ IsVariant variants words) (hwords : words.IsChain CanPrecede) :
    variants.IsChain CanPrecede := by
  induction h with
  | nil => exact .nil
  | cons hv hrest ih =>
    cases hrest with
    | nil => exact .singleton _
    | cons hnext _ =>
      rw [List.isChain_cons_cons] at hwords ⊢
      refine ⟨fun hletter ↦ ?_, ih hwords.2⟩
      rw [hv.isSome_exponent?]
      exact hwords.1 (hnext.1 ▸ hletter)

theorem map_upperCase_of_isTypedAs {words : List AddressWord} {pieces : List (List Char)}
    (h : List.Forall₂ IsTypedAs words pieces) : pieces.map upperCase = words.map text := by
  induction h with
  | nil => rfl
  | cons hpiece _ ih => rw [List.map_cons, List.map_cons, hpiece.upperCase_eq, ih]

end AddressWord

section body

variable {words : List AddressWord} {pieces : List (List Char)} {body : List Char}

theorem exists_isTypedAs (hpieces : List.Forall₂ AddressWord.IsTypedAs words pieces)
    {piece : List Char} (hpiece : piece ∈ pieces) : ∃ w : AddressWord, w.IsTypedAs piece := by
  obtain ⟨w, -, hw⟩ := exists_of_mem_forall₂ hpieces.flip hpiece
  exact ⟨w, hw⟩

theorem ne_of_mem_body (hpieces : List.Forall₂ AddressWord.IsTypedAs words pieces)
    (hbody : IsSpaced pieces body) {c : Char} (hc : c ∈ body) : c ≠ ';' ∧ c ≠ '(' := by
  rcases hbody.mem hc with hblank | ⟨piece, hpiece, hc⟩
  · constructor <;> rintro rfl <;> exact absurd hblank (by decide)
  · obtain ⟨w, hw⟩ := exists_isTypedAs hpieces hpiece
    have hchar := hw.isWordChar hc
    constructor <;> rintro rfl <;> exact absurd hchar (by decide)

theorem exists_body_eq_cons (hpieces : List.Forall₂ AddressWord.IsTypedAs words pieces)
    (hbody : IsSpaced pieces body) : ∃ c rest, body = c :: rest ∧ isBlank c = false := by
  have hne : body ≠ [] := hbody.ne_nil fun piece hpiece ↦ by
    obtain ⟨w, hw⟩ := exists_isTypedAs hpieces hpiece
    exact hw.ne_nil
  obtain ⟨c, rest, rfl⟩ := List.exists_cons_of_ne_nil hne
  refine ⟨c, rest, rfl, ?_⟩
  cases hpieces with
  | nil => cases hbody
  | cons hpiece _ =>
    have hhead := hbody.head?_eq hpiece.ne_nil
    exact isBlank_of_isWordChar (hpiece.isWordChar (List.mem_of_mem_head? hhead.symm))

theorem isBlank_of_getLast?_body (hpieces : List.Forall₂ AddressWord.IsTypedAs words pieces)
    (hbody : IsSpaced pieces body) {c : Char} (hc : c ∈ body.getLast?) : isBlank c = false := by
  obtain ⟨piece, hpiece, hlast⟩ := hbody.exists_getLast?_eq fun piece hpiece ↦ by
    obtain ⟨w, hw⟩ := exists_isTypedAs hpieces hpiece
    exact hw.ne_nil
  obtain ⟨w, hw⟩ := exists_isTypedAs hpieces hpiece
  rw [hlast] at hc
  exact isBlank_of_isWordChar (hw.isWordChar (List.mem_of_mem_getLast? hc))

end body

/-- Trimming leaves the code as it is, and at most blanks and the remark behind it. -/
theorem exists_trim_eq {lead body trail remark : List Char} (hlead : ∀ c ∈ lead, isBlank c = true)
    (hfirst : ∃ c rest, body = c :: rest ∧ isBlank c = false)
    (hlast : ∀ c ∈ body.getLast?, isBlank c = false) (htrail : ∀ c ∈ trail, isBlank c = true)
    (hremark : ∀ c ∈ remark.head?, c = ';') :
    ∃ gap remark', trim (lead ++ (body ++ (trail ++ remark))) = body ++ (gap ++ remark') ∧
      (∀ c ∈ gap, isBlank c = true) ∧ ∀ c ∈ remark'.head?, c = ';' := by
  have hstart : trimStart (lead ++ (body ++ (trail ++ remark))) = body ++ (trail ++ remark) := by
    obtain ⟨c, rest, rfl, hc⟩ := hfirst
    refine trimStart_append hlead ?_
    rintro d ⟨⟩
    exact hc
  rw [trim, hstart]
  cases remark with
  | nil =>
    refine ⟨[], [], ?_, List.forall_mem_nil _, by rintro c ⟨⟩⟩
    rw [List.append_nil, trimEnd_append hlast htrail, List.append_nil, List.append_nil]
  | cons c rest =>
    obtain rfl := hremark c rfl
    have hrest := trimEnd_append_cons (c := ';') (by decide) (body ++ trail) rest
    rw [List.append_assoc, List.append_assoc] at hrest
    refine ⟨trail, ';' :: trimEnd rest, hrest, htrail, ?_⟩
    rintro d ⟨⟩
    rfl

/-- The words that are read from a typed line are those that were typed, save for some zeros. -/
theorem IsTypedLine.exists_readWords_eq {words : List AddressWord} {raw : List Char}
    (h : IsTypedLine words raw) (hwords : words.IsChain AddressWord.CanPrecede) :
    ∃ variants, List.Forall₂ AddressWord.IsVariant variants words ∧
      readWords raw = variants.map AddressWord.toWord := by
  obtain @⟨variants, hvariants, pieces, hpieces, body, hbody, lead, trail, hlead, htrail, remark,
    hremark⟩ := h
  refine ⟨variants, hvariants, ?_⟩
  obtain ⟨c, rest, hcons, hblank⟩ := exists_body_eq_cons hpieces hbody
  obtain ⟨gap, remark', htrim, hgap, hremark'⟩ := exists_trim_eq hlead ⟨c, rest, hcons, hblank⟩
    (fun _ ↦ isBlank_of_getLast?_body hpieces hbody) htrail hremark
  have hcode : ∀ d ∈ body ++ gap, d ≠ ';' ∧ d ≠ '(' := by
    intro d hd
    rcases List.mem_append.mp hd with hd | hd
    · exact ne_of_mem_body hpieces hbody hd
    · constructor <;> rintro rfl <;> exact absurd (hgap _ hd) (by decide)
  have hskip : isSkipped (body ++ (gap ++ remark')) = false := by
    obtain ⟨hsemicolon, hparenthesis⟩ := ne_of_mem_body hpieces hbody
      (hcons ▸ List.mem_cons_self : c ∈ body)
    rw [hcons, List.cons_append, isSkipped, decide_eq_false hsemicolon,
      decide_eq_false hparenthesis]
    rfl
  have hupper : IsSpaced (variants.map AddressWord.text) (upperCase body) := by
    rw [← AddressWord.map_upperCase_of_isTypedAs hpieces]
    exact hbody.upperCase
  rw [readWords, htrim, hskip, if_neg Bool.false_ne_true, Word.ofLine, ← List.append_assoc,
    Word.stripComments_append_remark hcode hremark', Word.ofText, upperCase_append,
    upperCase_gap hgap]
  exact hupper.ofCode_append (AddressWord.isChain_of_isVariant hvariants hwords) hgap

theorem IsTypedLine.ne_nil {words : List AddressWord} {raw : List Char}
    (h : IsTypedLine words raw) : words ≠ [] := by
  rintro rfl
  obtain ⟨hnone, hpieces, hbody, -, -, -⟩ := h
  cases hnone
  cases hpieces
  cases hbody

/-! ## The plain text of a program -/

/-- The line with one word per blank in upper case. -/
def plainLine (words : List AddressWord) : List Char :=
  [' '].intercalate (words.map AddressWord.text)

def plainLines (program : List (List AddressWord)) : List Char :=
  program.flatMap fun words ↦ plainLine words ++ ['\n']

theorem lines_plainLines (program : List (List AddressWord)) :
    lines (plainLines program) = program.map plainLine := by
  have hplain : plainLines program = (program.map plainLine).flatMap (· ++ ['\n']) := by
    rw [plainLines, List.flatMap_map]
  rw [hplain]
  refine lines_flatMap_lineFeed fun raw hraw c hc ↦ ?_
  obtain ⟨words, -, rfl⟩ := List.mem_map.mp hraw
  rcases mem_intercalate_blank hc with rfl | ⟨piece, hpiece, hc⟩
  · decide
  · obtain ⟨w, -, rfl⟩ := List.mem_map.mp hpiece
    exact isLineEnd_of_isWordChar (AddressWord.isWordChar_of_mem_text hc)

theorem isSpaced_intercalate {pieces : List (List Char)} (hne : pieces ≠ []) :
    IsSpaced pieces ([' '].intercalate pieces) := by
  induction pieces with
  | nil => exact absurd rfl hne
  | cons piece later ih =>
    match later with
    | [] =>
      rw [List.intercalate_singleton]
      exact .single piece
    | next :: later =>
      rw [List.intercalate_cons_cons, List.append_assoc]
      exact .cons piece (by decide) (ih (List.cons_ne_nil next later))

theorem isTypedLine_plainLine {words : List AddressWord} (hne : words ≠ []) :
    IsTypedLine words (plainLine words) := by
  have hpieces : List.Forall₂ AddressWord.IsTypedAs words (words.map AddressWord.text) := by
    rw [List.forall₂_map_right_iff]
    exact List.forall₂_same.mpr fun w _ ↦ w.isTypedAs_text
  have hbody : IsSpaced (words.map AddressWord.text) (plainLine words) :=
    isSpaced_intercalate fun hnil ↦ hne (List.map_eq_nil_iff.mp hnil)
  have hblank : ∀ c ∈ ([] : List Char), isBlank c = true := List.forall_mem_nil _
  have hremark : ∀ c ∈ ([] : List Char).head?, c = ';' := by rintro c ⟨⟩
  have hline := IsTypedLine.intro (List.forall₂_same.mpr fun w _ ↦ AddressWord.IsVariant.refl w)
    hpieces hbody hblank hblank hremark
  rwa [List.append_nil, List.append_nil, List.nil_append] at hline

end Engraving
