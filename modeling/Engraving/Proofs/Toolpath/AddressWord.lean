import Engraving.Proofs.Number.NumberText
import Engraving.Proofs.Toolpath.WordText
import Engraving.Text.Character

/-!
# Address words as they are typed

An address word is a letter with a typed value. Where it ends is told by what follows it: a blank,
or the letter of the next word. That letter must not be taken for the mark of an exponent, so it is
no E unless the word has an exponent of its own. Texts in which every two neighbours keep to this
are cut into the words that were typed, be they glued together or apart.
-/

namespace Engraving

/-- A letter and a typed value. -/
structure AddressWord where
  letter : Char
  isAddress : Word.isAddress letter = true
  value : ValueText
  deriving DecidableEq, Repr

namespace AddressWord

def toWord (w : AddressWord) : Word := ⟨w.letter, w.value.text 'E'⟩

def text (w : AddressWord) : List Char := w.toWord.text

/-- An E directly behind the word is no exponent of it. -/
def CanPrecede (w next : AddressWord) : Prop :=
  next.letter = 'E' → w.value.exponent?.isSome = true

instance (w next : AddressWord) : Decidable (w.CanPrecede next) :=
  inferInstanceAs (Decidable (next.letter = 'E' → w.value.exponent?.isSome = true))

end AddressWord

/-! ## Characters -/

/-- A character of words, in upper or lower case. -/
def isWordChar (c : Char) : Bool := 43 ≤ c.toNat && c.toNat ≤ 122 && c != ';'

theorem isWordChar_iff {c : Char} :
    isWordChar c = true ↔ 43 ≤ c.toNat ∧ c.toNat ≤ 122 ∧ c ≠ ';' := by
  rw [isWordChar, Bool.and_eq_true, Bool.and_eq_true, decide_eq_true_iff, decide_eq_true_iff,
    bne_iff_ne, and_assoc]

theorem isBlank_of_isWordChar {c : Char} (h : isWordChar c = true) : isBlank c = false := by
  obtain ⟨hlow, hhigh, -⟩ := isWordChar_iff.mp h
  simp only [isBlank, Bool.or_eq_false_iff, Bool.and_eq_false_iff, decide_eq_false_iff_not]
  omega

theorem isLineEnd_of_isWordChar {c : Char} (h : isWordChar c = true) : isLineEnd c = false := by
  obtain ⟨hlow, hhigh, -⟩ := isWordChar_iff.mp h
  simp only [isLineEnd, Bool.or_eq_false_iff, Bool.and_eq_false_iff, decide_eq_false_iff_not]
  omega

theorem isWordChar_of_isDigit {c : Char} (h : c.isDigit = true) : isWordChar c = true := by
  obtain ⟨hlow, hhigh⟩ := toNat_of_isNumeral (isNumeral_of_isDigit h)
  refine isWordChar_iff.mpr ⟨by omega, by omega, ?_⟩
  rintro rfl
  cases h

theorem isWordChar_of_isAddress {c : Char} (h : Word.isAddress c = true) :
    isWordChar c = true := by
  obtain ⟨hlow, hhigh⟩ := toNat_of_isAddress h
  refine isWordChar_iff.mpr ⟨by omega, by omega, ?_⟩
  rintro rfl
  cases h

theorem isWordChar_of_mem_valueText {v : ValueText} {mark c : Char} (hmark : isWordChar mark = true)
    (h : c ∈ v.text mark) : isWordChar c = true := by
  rcases ValueText.mem_text h with hdigit | rfl | rfl | rfl | rfl
  · exact isWordChar_of_isDigit hdigit
  · decide
  · decide
  · decide
  · exact hmark

theorem AddressWord.isWordChar_of_mem_text {w : AddressWord} {c : Char} (h : c ∈ w.text) :
    isWordChar c = true := by
  rcases List.mem_cons.mp h with rfl | h
  · exact isWordChar_of_isAddress w.isAddress
  · exact isWordChar_of_mem_valueText (by decide) h

/-! ## Cutting off a value -/

theorem SignMark.cutSign_text_append (s : SignMark) {rest : List Char}
    (h : ∀ c ∈ rest.head?, c ≠ '+' ∧ c ≠ '-') :
    Word.cutSign (s.text ++ rest) = (s.text, rest) := by
  cases s with
  | none =>
    rw [text, List.nil_append]
    cases rest with
    | nil => rfl
    | cons c rest =>
      obtain ⟨hplus, hminus⟩ := h c rfl
      rw [Word.cutSign, decide_eq_false hminus, decide_eq_false hplus]
      rfl
  | plus => rfl
  | minus => rfl

namespace ValueText

/-- What may stand behind a value: nothing, or a letter that is not taken for an exponent. -/
def EndsBefore (v : ValueText) (rest : List Char) : Prop :=
  ∀ c ∈ rest.head?, Word.isAddress c = true ∧ (c = 'E' → v.exponent?.isSome = true)

variable {v : ValueText} {rest : List Char}

theorem cutExponent_exponentText_append (h : v.EndsBefore rest) :
    Word.cutExponent (v.exponentText 'E' ++ rest) = (v.exponentText 'E', rest) := by
  rw [exponentText]
  rw [EndsBefore] at h
  cases hexponent : v.exponent? with
  | none =>
    rw [hexponent] at h
    -- Without an exponent no E may follow, or it would be taken for one.
    refine Word.cutExponent_of_head? fun c hc ↦ ?_
    rintro rfl
    cases (h 'E' hc).2 rfl
  | some e =>
    obtain ⟨d, digits, hdigits⟩ := List.exists_cons_of_ne_nil (digitsText_ne_nil e.digits_ne_nil)
    have hdigit : ∀ c ∈ digitsText e.digits, c.isDigit = true :=
      fun _ ↦ isDigit_of_mem_digitsText
    have hrest : ∀ c ∈ rest.head?, c.isDigit = false := by
      intro c hc
      exact (Bool.or_eq_false_iff.mp (isPlace_of_isAddress (h c hc).1)).1
    have hsign : Word.cutSign (e.sign.text ++ (digitsText e.digits ++ rest))
        = (e.sign.text, digitsText e.digits ++ rest) := by
      refine e.sign.cutSign_text_append fun c hc ↦ ?_
      rw [hdigits] at hc hdigit
      cases hc
      have hd := hdigit d List.mem_cons_self
      constructor <;> rintro rfl <;> cases hd
    have hcut : Word.cutWhile Char.isDigit (digitsText e.digits ++ rest)
        = (digitsText e.digits, rest) := by
      rw [Word.cutWhile, takeWhile_isDigit_append _ hdigit hrest,
        dropWhile_isDigit_append _ hdigit hrest]
    have hnonempty : (digitsText e.digits).isEmpty = false := by
      rw [hdigits]
      rfl
    rw [Option.map_some, Option.getD_some, ExponentText.text, List.cons_append, List.append_assoc,
      Word.cutExponent]
    simp only [hsign, hcut, hnonempty]
    rfl

/-- Behind the digits comes a letter, the mark of the exponent or that of the next word. -/
theorem isAddress_of_head?_append (h : v.EndsBefore rest) {c : Char}
    (hc : c ∈ (v.exponentText 'E' ++ rest).head?) : Word.isAddress c = true := by
  rw [List.head?_append, Option.mem_def, Option.or_eq_some_iff] at hc
  rcases hc with hc | ⟨-, hc⟩
  · rw [eq_of_head?_exponentText hc]
    rfl
  · exact (h c hc).1

theorem cutValue_text_append (h : v.EndsBefore rest) :
    Word.cutValue (v.text 'E' ++ rest) = (v.text 'E', rest) := by
  set digits := digitsText v.whole ++ (v.pointText ++ digitsText v.fraction) with hdigits
  have htext : v.text 'E' ++ rest = v.sign.text ++ (digits ++ (v.exponentText 'E' ++ rest)) := by
    rw [text, hdigits]
    simp only [List.append_assoc]
  have hplace : ∀ c ∈ digits, (c.isDigit || c = '.') = true := by
    intro c hc
    rw [hdigits, List.mem_append, List.mem_append] at hc
    rcases hc with hc | hc | hc
    · rw [isDigit_of_mem_digitsText hc, Bool.true_or]
    · rw [mem_pointText hc]
      rfl
    · rw [isDigit_of_mem_digitsText hc, Bool.true_or]
  have hletter : ∀ c ∈ (v.exponentText 'E' ++ rest).head?, (c.isDigit || c = '.') = false := by
    intro c hc
    exact isPlace_of_isAddress (isAddress_of_head?_append h hc)
  have hsign : Word.cutSign (v.text 'E' ++ rest)
      = (v.sign.text, digits ++ (v.exponentText 'E' ++ rest)) := by
    rw [htext]
    refine v.sign.cutSign_text_append fun c hc ↦ ?_
    rw [List.head?_append, Option.mem_def, Option.or_eq_some_iff] at hc
    rcases hc with hc | ⟨-, hc⟩
    · have hc := hplace c (List.mem_of_mem_head? hc)
      constructor <;> rintro rfl <;> cases hc
    · have hc := isAddress_of_head?_append h hc
      constructor <;> rintro rfl <;> cases hc
  have hcut := Word.cutWhile_append_of_head? digits (v.exponentText 'E' ++ rest) hletter
  rw [List.takeWhile_eq_self_iff.mpr hplace, List.dropWhile_eq_nil_iff.mpr hplace] at hcut
  have hfiller : Word.cutWhile (fun c ↦ !Word.isAddress c) rest = ([], rest) :=
    Word.cutWhile_append_of_head? [] rest fun c hc ↦ by rw [(h c hc).1]; rfl
  rw [Word.cutValue]
  simp only [hsign, hcut, List.nil_append, cutExponent_exponentText_append h, hfiller,
    List.append_nil]
  rw [text, hdigits]
  simp only [List.append_assoc]

end ValueText

/-! ## Runs of words -/

namespace AddressWord

variable {w : AddressWord} {rest : List Char}

theorem ofRun_text_append (h : w.value.EndsBefore rest) :
    Word.ofRun (w.text ++ rest) = w.toWord :: Word.ofRun rest := by
  rw [text, Word.text, List.cons_append, Word.ofRun, toWord, if_pos w.isAddress,
    ValueText.cutValue_text_append h]

end AddressWord

namespace Word

/-- The words of a text are those before its first blank and those behind it. -/
theorem ofCode_eq (code : List Char) :
    ofCode code = ofRun (code.takeWhile isInk) ++ ofCode (code.dropWhile isInk) := by
  match code with
  | [] => rw [List.takeWhile_nil, List.dropWhile_nil, ofRun, List.nil_append]
  | c :: rest =>
    by_cases hink : isInk c = true
    · have hblank : ∀ d ∈ [c], isBlank d = false := by
        intro d hd
        rw [List.mem_singleton.mp hd]
        exact Bool.eq_false_of_not_eq_true (isInk_iff.mp hink)
      have hrun := blankFree_append_eq (List.cons_ne_nil c []) hblank rest
      rw [List.singleton_append, List.singleton_append] at hrun
      rw [ofCode, hrun, List.flatMap_cons, List.takeWhile_cons_of_pos hink,
        List.dropWhile_cons_of_pos hink, ofCode]
    · rw [List.takeWhile_cons_of_neg hink, List.dropWhile_cons_of_neg hink, ofRun, List.nil_append]

theorem ofCode_append_of_isBlank {gap : List Char} (h : ∀ c ∈ gap, isBlank c = true)
    (rest : List Char) : ofCode (gap ++ rest) = ofCode rest := by
  rw [ofCode, blankFree_gap_append h, ofCode]

/-- A typed word is read up to a blank or the letter of the next word. -/
theorem ofCode_text_append {w : AddressWord} {rest : List Char}
    (h : ∀ c ∈ rest.head?, isBlank c = true ∨
      isAddress c = true ∧ (c = 'E' → w.value.exponent?.isSome = true)) :
    ofCode (w.text ++ rest) = w.toWord :: ofCode rest := by
  have hink : ∀ c ∈ w.text, isBlank c = false :=
    fun _ hc ↦ isBlank_of_isWordChar (AddressWord.isWordChar_of_mem_text hc)
  have hends : w.value.EndsBefore (rest.takeWhile isInk) := by
    intro c hc
    match rest with
    | [] => cases hc
    | d :: rest =>
      by_cases hd : isInk d = true
      · rw [List.takeWhile_cons_of_pos hd] at hc
        cases hc
        exact (h _ rfl).resolve_left (isInk_iff.mp hd)
      · rw [List.takeWhile_cons_of_neg hd] at hc
        cases hc
  have hne : w.text ≠ [] := List.cons_ne_nil _ _
  rw [ofCode, blankFree_append_eq hne hink, List.flatMap_cons, AddressWord.ofRun_text_append hends,
    List.cons_append, ofCode_eq rest, ofCode]

end Word

/-! ## Words glued together or apart -/

/-- A text in which the pieces stand one behind the other, glued together or with blanks between
them. -/
inductive IsSpaced : List (List Char) → List Char → Prop
  | single (piece : List Char) : IsSpaced [piece] piece
  | cons (piece : List Char) {gap : List Char} (hgap : ∀ c ∈ gap, isBlank c = true)
      {pieces : List (List Char)} {rest : List Char} (hrest : IsSpaced pieces rest) :
      IsSpaced (piece :: pieces) (piece ++ (gap ++ rest))

namespace IsSpaced

variable {pieces : List (List Char)} {body : List Char}

theorem head?_eq {piece : List Char} (h : IsSpaced (piece :: pieces) body) (hne : piece ≠ []) :
    body.head? = piece.head? := by
  cases h with
  | single => rfl
  | cons _ hgap hrest => exact List.head?_append_of_ne_nil _ hne

theorem mem (h : IsSpaced pieces body) {c : Char} (hc : c ∈ body) :
    isBlank c = true ∨ ∃ piece ∈ pieces, c ∈ piece := by
  induction h with
  | single piece => exact .inr ⟨piece, List.mem_singleton_self _, hc⟩
  | cons piece hgap _ ih =>
    rw [List.mem_append, List.mem_append] at hc
    rcases hc with hc | hc | hc
    · exact .inr ⟨piece, List.mem_cons_self, hc⟩
    · exact .inl (hgap c hc)
    · exact (ih hc).imp_right fun ⟨p, hp, hcp⟩ ↦ ⟨p, List.mem_cons_of_mem _ hp, hcp⟩

theorem ne_nil (h : IsSpaced pieces body) (hpieces : ∀ piece ∈ pieces, piece ≠ []) : body ≠ [] := by
  cases h with
  | single => exact hpieces body (List.mem_singleton_self _)
  | cons piece _ _ =>
    exact List.append_ne_nil_of_left_ne_nil (hpieces piece List.mem_cons_self) _

theorem exists_getLast?_eq (h : IsSpaced pieces body) (hpieces : ∀ piece ∈ pieces, piece ≠ []) :
    ∃ piece ∈ pieces, body.getLast? = piece.getLast? := by
  induction h with
  | single piece => exact ⟨piece, List.mem_singleton_self _, rfl⟩
  | cons piece _ hrest ih =>
    have hlater := (List.forall_mem_cons.mp hpieces).2
    obtain ⟨last, hlast, heq⟩ := ih hlater
    have hne := hrest.ne_nil hlater
    refine ⟨last, List.mem_cons_of_mem _ hlast, ?_⟩
    rw [List.getLast?_append_of_ne_nil _ (List.append_ne_nil_of_right_ne_nil _ hne),
      List.getLast?_append_of_ne_nil _ hne, heq]

/-- Typed words are read as they were typed, glued together or apart. -/
theorem ofCode_append {words : List AddressWord}
    (h : IsSpaced (words.map AddressWord.text) body)
    (hwords : words.IsChain AddressWord.CanPrecede) {gap : List Char}
    (hgap : ∀ c ∈ gap, isBlank c = true) :
    Word.ofCode (body ++ gap) = words.map AddressWord.toWord := by
  induction words generalizing body with
  | nil => cases h
  | cons w later ih =>
    match later with
    | [] =>
      cases h with
      | cons _ _ hrest => cases hrest
      | single =>
        have hnone : Word.ofCode gap = [] := by
          have hblank := Word.ofCode_append_of_isBlank hgap []
          rwa [List.append_nil] at hblank
        rw [Word.ofCode_text_append fun c hc ↦ .inl (hgap c (List.mem_of_mem_head? hc)), hnone]
        rfl
    | next :: later =>
      rw [List.isChain_cons_cons] at hwords
      cases h with
      | @cons _ between hbetween _ rest hrest =>
        have hhead : rest.head? = some next.letter := hrest.head?_eq (List.cons_ne_nil _ _)
        rw [List.append_assoc, List.append_assoc, Word.ofCode_text_append,
          Word.ofCode_append_of_isBlank hbetween, ih hrest hwords.2, List.map_cons, List.map_cons,
          List.map_cons]
        intro c hc
        match between with
        | b :: _ =>
          cases hc
          exact .inl (hbetween _ List.mem_cons_self)
        | [] =>
          rw [List.nil_append, List.head?_append, hhead] at hc
          cases hc
          -- Words are glued together only where the first may precede the second.
          exact .inr ⟨next.isAddress, hwords.1⟩

end IsSpaced

end Engraving
