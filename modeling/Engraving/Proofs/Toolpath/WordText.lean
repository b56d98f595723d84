import Engraving.Proofs.Number.DecimalText
import Engraving.Toolpath.Word

/-!
# Reading back written words

Words are written as runs of words without blanks, with a blank between two runs and perhaps a
comment at the end. When all values are numerals, nothing of a value can be taken for the letter of
another word, so that cutting such a line into words gives back exactly the words written on it.
-/

namespace Engraving

/-! ## Numerals and letters -/

theorem isBlank_of_isNumeral {c : Char} (h : isNumeral c = true) : isBlank c = false := by
  obtain ⟨hlow, hhigh⟩ := toNat_of_isNumeral h
  simp only [isBlank, Bool.or_eq_false_iff, Bool.and_eq_false_iff, decide_eq_false_iff_not]
  omega

theorem toNat_of_isAddress {c : Char} (h : Word.isAddress c = true) :
    65 ≤ c.toNat ∧ c.toNat ≤ 90 := by
  rw [Word.isAddress, Char.isUpper, decide_eq_true_iff] at h
  exact ⟨h.1, h.2⟩

theorem isAddress_of_isNumeral {c : Char} (h : isNumeral c = true) :
    Word.isAddress c = false := by
  by_contra hc
  have hnumeral := toNat_of_isNumeral h
  have hletter := toNat_of_isAddress (Bool.not_eq_false _ ▸ hc)
  omega

theorem isBlank_of_isAddress {c : Char} (h : Word.isAddress c = true) : isBlank c = false := by
  obtain ⟨hlow, hhigh⟩ := toNat_of_isAddress h
  simp only [isBlank, Bool.or_eq_false_iff, Bool.and_eq_false_iff, decide_eq_false_iff_not]
  omega

theorem isPlace_of_isAddress {c : Char} (h : Word.isAddress c = true) :
    (c.isDigit || c = '.') = false := by
  by_contra hc
  rw [Bool.not_eq_false, Bool.or_eq_true, decide_eq_true_iff] at hc
  have hnumeral : isNumeral c = true := by
    rcases hc with hdigit | rfl
    · exact isNumeral_of_isDigit hdigit
    · rfl
  rw [isAddress_of_isNumeral hnumeral] at h
  cases h

namespace Word

def text (w : Word) : List Char := w.letter :: w.value

/-- A word that can be told from what stands before and behind it. -/
structure IsPlain (w : Word) : Prop where
  isAddress : Word.isAddress w.letter = true
  letter_ne : w.letter ≠ 'E'
  value : ∀ c ∈ w.value, isNumeral c = true

/-- What may stand behind a value: nothing, or a letter that is not the sign of an exponent. -/
def BeginsWord (rest : List Char) : Prop :=
  ∀ c ∈ rest.head?, Word.isAddress c = true ∧ c ≠ 'E'

/-! ## Cutting off a value -/

theorem cutWhile_append_of_head? {p : Char → Bool} (value rest : List Char)
    (hrest : ∀ c ∈ rest.head?, p c = false) :
    cutWhile p (value ++ rest) = (value.takeWhile p, value.dropWhile p ++ rest) := by
  induction value with
  | nil =>
    match rest with
    | [] => rfl
    | c :: rest =>
      have hc : ¬ p c = true := by
        rw [hrest c rfl]
        exact Bool.false_ne_true
      rw [List.nil_append, cutWhile, List.takeWhile_cons_of_neg hc, List.dropWhile_cons_of_neg hc]
      rfl
  | cons d value ih =>
    rw [cutWhile, Prod.mk.injEq] at ih
    rw [List.cons_append, cutWhile, List.takeWhile_cons, List.takeWhile_cons, List.dropWhile_cons,
      List.dropWhile_cons]
    split
    · rw [ih.1, ih.2]
    · rfl

theorem cutExponent_of_head? {text : List Char} (h : ∀ c ∈ text.head?, c ≠ 'E') :
    cutExponent text = ([], text) := by
  match text with
  | [] => rfl
  | c :: rest =>
    rw [cutExponent]
    simp only [decide_eq_false (h c rfl), Bool.false_and, Bool.false_eq_true, if_false]

theorem exists_cutSign_append (value : List Char) {rest : List Char} (hrest : BeginsWord rest) :
    ∃ sign unsigned, value = sign ++ unsigned ∧
      cutSign (value ++ rest) = (sign, unsigned ++ rest) := by
  match value, rest with
  | [], [] => exact ⟨[], [], rfl, rfl⟩
  | [], c :: rest =>
    have hc : (decide (c = '-') || decide (c = '+')) = false := by
      have hupper := (hrest c rfl).1
      rw [Bool.or_eq_false_iff, decide_eq_false_iff_not, decide_eq_false_iff_not]
      constructor <;> rintro rfl <;> exact absurd hupper (by decide)
    refine ⟨[], [], rfl, ?_⟩
    rw [List.nil_append, cutSign, hc]
    rfl
  | c :: value, rest =>
    rw [List.cons_append, cutSign]
    split
    · exact ⟨[c], value, rfl, rfl⟩
    · exact ⟨[], c :: value, rfl, rfl⟩

/-- A value of numerals ends where the next word begins. -/
theorem cutValue_append_of_isNumeral {value rest : List Char}
    (hvalue : ∀ c ∈ value, isNumeral c = true) (hrest : BeginsWord rest) :
    cutValue (value ++ rest) = (value, rest) := by
  -- A value may hold signs further on, so it need not be digits behind the first sign.
  obtain ⟨sign, unsigned, rfl, hsign⟩ := exists_cutSign_append value hrest
  have hunsigned : ∀ c ∈ unsigned, isNumeral c = true :=
    fun c hc ↦ hvalue c (List.mem_append_right sign hc)
  have hdigits := cutWhile_append_of_head? (p := fun c ↦ c.isDigit || c = '.') unsigned
    rest fun c hc ↦ isPlace_of_isAddress (hrest c hc).1
  simp only [cutValue, hsign]
  generalize (fun c : Char ↦ c.isDigit || decide (c = '.')) = p at hdigits ⊢
  -- What is left of the numerals is no exponent, and is taken along as filler.
  have hafter : ∀ c ∈ unsigned.dropWhile p, isNumeral c = true :=
    fun c hc ↦ hunsigned c ((List.dropWhile_suffix p).subset hc)
  have hexponent : cutExponent (unsigned.dropWhile p ++ rest)
      = ([], unsigned.dropWhile p ++ rest) := by
    refine cutExponent_of_head? fun c hc ↦ ?_
    cases hdrop : unsigned.dropWhile p with
    | nil =>
      rw [hdrop] at hc
      exact (hrest c hc).2
    | cons d _ =>
      rw [hdrop] at hc
      cases hc
      rintro rfl
      exact absurd (hafter 'E' (hdrop ▸ List.mem_cons_self)) (by decide)
  have hfiller := cutWhile_append_of_head? (p := fun c ↦ !Word.isAddress c)
    (unsigned.dropWhile p) rest fun c hc ↦ by rw [(hrest c hc).1]; rfl
  have hnone : ∀ c ∈ unsigned.dropWhile p, (!Word.isAddress c) = true := fun c hc ↦ by
    rw [isAddress_of_isNumeral (hafter c hc)]
    rfl
  rw [List.takeWhile_eq_self_iff.mpr hnone, List.dropWhile_eq_nil_iff.mpr hnone] at hfiller
  simp only [hdigits, hexponent, hfiller, List.append_nil, List.nil_append, List.append_assoc,
    List.takeWhile_append_dropWhile]

/-! ## Runs of words -/

theorem ofRun_text_append {w : Word} (hw : w.IsPlain) {rest : List Char}
    (hrest : BeginsWord rest) : ofRun (w.text ++ rest) = w :: ofRun rest := by
  rw [text, List.cons_append, ofRun, if_pos hw.isAddress,
    cutValue_append_of_isNumeral hw.value hrest]

theorem ofRun_flatMap_text {words : List Word} (h : ∀ w ∈ words, w.IsPlain) :
    ofRun (words.flatMap text) = words := by
  induction words with
  | nil => rw [List.flatMap_nil, ofRun]
  | cons w rest ih =>
    have hbegins : BeginsWord (rest.flatMap text) := by
      cases rest with
      | nil => rintro c ⟨⟩
      | cons v _ =>
        rintro c ⟨⟩
        have hv := h v (List.mem_cons_of_mem _ List.mem_cons_self)
        exact ⟨hv.isAddress, hv.letter_ne⟩
    rw [List.flatMap_cons, ofRun_text_append (h w List.mem_cons_self) hbegins,
      ih fun v hv ↦ h v (List.mem_cons_of_mem _ hv)]

end Word

/-! ## Blanks between runs -/

theorem blankFreeFrom_append {run : List Char} (h : ∀ c ∈ run, isBlank c = false)
    (before rest : List Char) :
    blankFreeFrom before (run ++ rest) = blankFreeFrom (run.reverse ++ before) rest := by
  induction run generalizing before with
  | nil => rfl
  | cons c run ih =>
    rw [List.cons_append, blankFreeFrom, if_neg (by rw [h c List.mem_cons_self]; simp),
      ih fun d hd ↦ h d (List.mem_cons_of_mem _ hd), List.reverse_cons, List.append_assoc]
    rfl

/-- A character that is no blank. -/
def isInk (c : Char) : Bool := !isBlank c

theorem isInk_iff {c : Char} : isInk c = true ↔ ¬ isBlank c = true := by
  rw [isInk, Bool.not_eq_true', Bool.not_eq_true]

/-- The run that is being read goes on to the next blank. -/
theorem blankFreeFrom_eq {run : List Char} (hne : run ≠ []) (rest : List Char) :
    blankFreeFrom run rest
      = (run.reverse ++ rest.takeWhile isInk)
        :: blankFree (rest.dropWhile isInk) := by
  have hempty : ¬ run.isEmpty = true := by rwa [List.isEmpty_iff]
  induction rest generalizing run with
  | nil =>
    rw [blankFreeFrom, if_neg hempty, List.takeWhile_nil, List.append_nil]
    rfl
  | cons c rest ih =>
    by_cases hblank : isBlank c = true
    · have hstop : ¬ isInk c = true := fun hink ↦ isInk_iff.mp hink hblank
      rw [blankFreeFrom, if_pos hblank, if_neg hempty, List.takeWhile_cons_of_neg hstop,
        List.dropWhile_cons_of_neg hstop, List.append_nil, blankFree, blankFreeFrom, if_pos hblank]
      rfl
    · have hgo : isInk c = true := isInk_iff.mpr hblank
      rw [blankFreeFrom, if_neg hblank, ih (List.cons_ne_nil c run) Bool.false_ne_true,
        List.takeWhile_cons_of_pos hgo, List.dropWhile_cons_of_pos hgo, List.reverse_cons,
        List.append_assoc, List.singleton_append]

/-- A run that holds no blank goes on to the next blank. -/
theorem blankFree_append_eq {run : List Char} (hne : run ≠ []) (h : ∀ c ∈ run, isBlank c = false)
    (rest : List Char) :
    blankFree (run ++ rest)
      = (run ++ rest.takeWhile isInk)
        :: blankFree (rest.dropWhile isInk) := by
  rw [blankFree, blankFreeFrom_append h, List.append_nil,
    blankFreeFrom_eq (List.reverse_ne_nil_iff.mpr hne), List.reverse_reverse]

theorem blankFree_cons_of_isBlank {b : Char} (hb : isBlank b = true) (rest : List Char) :
    blankFree (b :: rest) = blankFree rest := by
  rw [blankFree, blankFreeFrom, if_pos hb]
  rfl

/-- A run that holds no blank stands alone when a blank or nothing follows. -/
theorem blankFree_append {run : List Char} (hne : run ≠ []) (h : ∀ c ∈ run, isBlank c = false)
    (rest : List Char) : blankFree (run ++ ' ' :: rest) = run :: blankFree rest := by
  rw [blankFree_append_eq hne h, List.takeWhile_cons_of_neg (by decide),
    List.dropWhile_cons_of_neg (by decide), List.append_nil,
    blankFree_cons_of_isBlank (by decide)]

theorem blankFree_eq_singleton {run : List Char} (hne : run ≠ [])
    (h : ∀ c ∈ run, isBlank c = false) : blankFree run = [run] := by
  have hrun := blankFree_append_eq hne h []
  rwa [List.append_nil, List.takeWhile_nil, List.append_nil, List.dropWhile_nil] at hrun

theorem blankFree_append_cons {b : Char} (hb : isBlank b = true) (first rest : List Char) :
    blankFree (first ++ b :: rest) = blankFree first ++ blankFree rest := by
  have hfrom (run : List Char) :
      blankFreeFrom run (first ++ b :: rest) = blankFreeFrom run first ++ blankFree rest := by
    induction first generalizing run with
    | nil =>
      rw [List.nil_append, blankFreeFrom, blankFreeFrom, if_pos hb, blankFree]
      split <;> rfl
    | cons c first ih =>
      rw [List.cons_append, blankFreeFrom, blankFreeFrom, ih, ih]
      split
      · split <;> rfl
      · rfl
  exact hfrom []

theorem blankFree_append_gap {gap : List Char} (hgap : ∀ c ∈ gap, isBlank c = true)
    (text : List Char) : blankFree (text ++ gap) = blankFree text := by
  induction gap generalizing text with
  | nil => rw [List.append_nil]
  | cons b gap ih =>
    obtain ⟨hb, hgap⟩ := List.forall_mem_cons.mp hgap
    rw [blankFree_append_cons hb, ← List.nil_append gap, ih hgap]
    exact List.append_nil _

theorem blankFree_gap_append {gap : List Char} (hgap : ∀ c ∈ gap, isBlank c = true)
    (rest : List Char) : blankFree (gap ++ rest) = blankFree rest := by
  induction gap with
  | nil => rfl
  | cons b gap ih =>
    obtain ⟨hb, hgap⟩ := List.forall_mem_cons.mp hgap
    rw [List.cons_append, blankFree_cons_of_isBlank hb, ih hgap]

theorem blankFree_trimStart (text : List Char) : blankFree (trimStart text) = blankFree text := by
  induction text with
  | nil => rfl
  | cons c rest ih =>
    rw [trimStart, List.dropWhile_cons]
    split
    · next hc => rw [← trimStart, ih, blankFree_cons_of_isBlank hc]
    · rfl

theorem blankFree_eq_nil_iff {text : List Char} : blankFree text = [] ↔ trimStart text = [] := by
  induction text with
  | nil => exact ⟨fun _ ↦ rfl, fun _ ↦ rfl⟩
  | cons c rest ih =>
    by_cases hc : isBlank c = true
    · rw [blankFree_cons_of_isBlank hc, ih, trimStart, trimStart, List.dropWhile_cons_of_pos hc]
    · have hinked : ∀ d ∈ [c], isBlank d = false :=
        List.forall_mem_singleton.mpr (Bool.eq_false_of_not_eq_true hc)
      have hrun := blankFree_append_eq (List.cons_ne_nil c []) hinked rest
      rw [List.singleton_append] at hrun
      rw [hrun, trimStart, List.dropWhile_cons_of_neg hc]
      exact ⟨fun h ↦ (nomatch h), fun h ↦ (nomatch h)⟩

theorem blankFree_trimEnd (text : List Char) : blankFree (trimEnd text) = blankFree text := by
  have hgap : ∀ c ∈ (text.reverse.takeWhile isBlank).reverse, isBlank c = true :=
    fun c hc ↦ List.mem_takeWhile_imp (List.mem_reverse.mp hc)
  rw [← blankFree_append_gap hgap, trimEnd, ← List.reverse_append,
    List.takeWhile_append_dropWhile, List.reverse_reverse]

theorem blankFree_intercalate {runs : List (List Char)}
    (h : ∀ run ∈ runs, run ≠ [] ∧ ∀ c ∈ run, isBlank c = false) {rest : List Char}
    (hrest : rest = [] ∨ rest = [' ']) : blankFree ([' '].intercalate runs ++ rest) = runs := by
  induction runs with
  | nil => rcases hrest with rfl | rfl <;> decide
  | cons run later ih =>
    obtain ⟨hne, hblank⟩ := h run List.mem_cons_self
    match later with
    | [] =>
      rw [List.intercalate_singleton]
      rcases hrest with rfl | rfl
      · rw [List.append_nil, blankFree_eq_singleton hne hblank]
      · rw [blankFree_append hne hblank]
        rfl
    | next :: later =>
      rw [List.intercalate_cons_cons, List.append_assoc, List.append_assoc, List.singleton_append,
        blankFree_append hne hblank, ih fun r hr ↦ h r (List.mem_cons_of_mem _ hr)]

theorem mem_intercalate_blank {runs : List (List Char)} {c : Char}
    (h : c ∈ [' '].intercalate runs) : c = ' ' ∨ ∃ run ∈ runs, c ∈ run := by
  induction runs with
  | nil => cases h
  | cons run later ih =>
    match later with
    | [] =>
      rw [List.intercalate_singleton] at h
      exact Or.inr ⟨run, List.mem_cons_self, h⟩
    | next :: later =>
      rw [List.intercalate_cons_cons, List.mem_append, List.mem_append, List.mem_singleton] at h
      rcases h with (h | h) | h
      · exact Or.inr ⟨run, List.mem_cons_self, h⟩
      · exact Or.inl h
      · exact (ih h).imp_right fun ⟨r, hr, hc⟩ ↦ ⟨r, List.mem_cons_of_mem _ hr, hc⟩

/-! ## Lines -/

/-- A character that upper case and comments leave alone: of ASCII, no small letter, no parenthesis
and no semicolon. -/
def isPlainCode (c : Char) : Bool := c.toNat < 97 && c != '(' && c != ';'

theorem isPlainCode_of_isNumeral {c : Char} (h : isNumeral c = true) : isPlainCode c = true := by
  obtain ⟨hlow, hhigh⟩ := toNat_of_isNumeral h
  rw [isPlainCode, Bool.and_eq_true, Bool.and_eq_true, decide_eq_true_iff, bne_iff_ne, bne_iff_ne]
  refine ⟨⟨by omega, ?_⟩, ?_⟩
  · rintro rfl
    exact absurd hlow (by decide)
  · rintro rfl
    exact absurd hhigh (by decide)

theorem isPlainCode_of_isAddress {c : Char} (h : Word.isAddress c = true) :
    isPlainCode c = true := by
  obtain ⟨hlow, hhigh⟩ := toNat_of_isAddress h
  rw [isPlainCode, Bool.and_eq_true, Bool.and_eq_true, decide_eq_true_iff, bne_iff_ne, bne_iff_ne]
  refine ⟨⟨by omega, ?_⟩, ?_⟩ <;> rintro rfl <;> exact absurd hlow (by decide)

theorem upperCaseOf_eq_self {c : Char} (h : c.toNat < 97) : upperCaseOf c = [c] := by
  have hletter : ¬ (97 ≤ c.toNat && c.toNat ≤ 122) = true := by
    rw [Bool.and_eq_true, decide_eq_true_iff]
    omega
  simp only [upperCaseOf]
  rw [if_pos (by omega), if_neg hletter]

theorem upperCase_eq_self {text : List Char} (h : ∀ c ∈ text, upperCaseOf c = [c]) :
    upperCase text = text := by
  rw [upperCase, List.flatMap_congr h]
  exact List.flatMap_singleton' text

theorem upperCase_append (first second : List Char) :
    upperCase (first ++ second) = upperCase first ++ upperCase second := List.flatMap_append

theorem upperCaseOf_of_isPlainCode {c : Char} (h : isPlainCode c = true) : upperCaseOf c = [c] := by
  rw [isPlainCode, Bool.and_eq_true, Bool.and_eq_true, decide_eq_true_iff] at h
  exact upperCaseOf_eq_self h.1.1

namespace Word

theorem blankComments_append {code : List Char} (h : ∀ c ∈ code, c ≠ '(') (rest : List Char) :
    blankComments (code ++ rest) = code ++ blankComments rest := by
  induction code with
  | nil => rfl
  | cons c code ih =>
    obtain ⟨hc, hcode⟩ := List.forall_mem_cons.mp h
    rw [List.cons_append, blankComments, if_neg hc, ih hcode, List.cons_append]

theorem stripComments_append {code : List Char} (h : ∀ c ∈ code, c ≠ ';' ∧ c ≠ '(')
    (rest : List Char) : stripComments (code ++ rest) = code ++ stripComments rest := by
  have hcode : ∀ c ∈ code, decide (c ≠ ';') = true := fun c hc ↦ decide_eq_true (h c hc).1
  rw [stripComments, List.takeWhile_append_of_pos hcode,
    blankComments_append fun c hc ↦ (h c hc).2, stripComments]

theorem stripComments_cons_remark {remark : List Char} (h : ∀ c ∈ remark, c ≠ ')' ∧ c ≠ ';')
    (rest : List Char) :
    stripComments ('(' :: (remark ++ ')' :: rest)) = ' ' :: stripComments rest := by
  have hremark : ∀ c ∈ '(' :: (remark ++ [')']), decide (c ≠ ';') = true := by
    intro c hc
    rw [decide_eq_true_iff]
    rcases List.mem_cons.mp hc with rfl | hc
    · decide
    · rcases List.mem_append.mp hc with hc | hc
      · exact (h c hc).2
      · rw [List.mem_singleton.mp hc]
        decide
  have hclose : ∀ c ∈ remark, decide (c ≠ ')') = true := fun c hc ↦ decide_eq_true (h c hc).1
  rw [stripComments, List.append_cons remark, ← List.cons_append,
    List.takeWhile_append_of_pos hremark, List.cons_append, blankComments, if_pos rfl,
    afterComment, List.append_assoc, List.dropWhile_append_of_pos hclose, stripComments]
  rfl

theorem stripComments_append_remark {code remark : List Char} (h : ∀ c ∈ code, c ≠ ';' ∧ c ≠ '(')
    (hremark : ∀ c ∈ remark.head?, c = ';') : stripComments (code ++ remark) = code := by
  have hnone : stripComments remark = [] := by
    match remark with
    | [] => rw [stripComments, List.takeWhile_nil, blankComments]
    | c :: rest =>
      obtain rfl := hremark c rfl
      rw [stripComments, List.takeWhile_cons_of_neg (by decide), blankComments]
  rw [stripComments_append h, hnone, List.append_nil]

end Word

theorem ne_of_isPlainCode {c : Char} (h : isPlainCode c = true) : c ≠ ';' ∧ c ≠ '(' := by
  constructor <;> rintro rfl <;> exact absurd h (by decide)

namespace Word

/-- Runs of words as they are written, with a blank between two runs. -/
def runsText (runs : List (List Word)) : List Char :=
  [' '].intercalate (runs.map fun run ↦ run.flatMap text)

theorem isPlainCode_of_mem_text {w : Word} (hw : w.IsPlain) {c : Char} (hc : c ∈ w.text) :
    isPlainCode c = true ∧ isBlank c = false := by
  rcases List.mem_cons.mp hc with rfl | hc
  · exact ⟨isPlainCode_of_isAddress hw.isAddress, isBlank_of_isAddress hw.isAddress⟩
  · have hnumeral := hw.value c hc
    exact ⟨isPlainCode_of_isNumeral hnumeral, isBlank_of_isNumeral hnumeral⟩

/-- A line of plain words is cut into these words, whatever is remarked behind them. -/
theorem ofLine_runsText {runs : List (List Word)}
    (hruns : ∀ run ∈ runs, run ≠ [] ∧ ∀ w ∈ run, w.IsPlain) {gap remark : List Char}
    (hgap : gap = [] ∨ gap = [' ']) (hremark : ∀ c ∈ remark.head?, c = ';') :
    ofLine (runsText runs ++ gap ++ remark) = runs.flatten := by
  have hchars : ∀ run ∈ runs, ∀ c ∈ run.flatMap text, isPlainCode c = true ∧ isBlank c = false := by
    intro run hrun c hc
    obtain ⟨w, hw, hc⟩ := List.mem_flatMap.mp hc
    exact isPlainCode_of_mem_text ((hruns run hrun).2 w hw) hc
  have hcode : ∀ c ∈ runsText runs ++ gap, isPlainCode c = true := by
    intro c hc
    rcases List.mem_append.mp hc with hc | hc
    · rcases mem_intercalate_blank hc with rfl | ⟨_, hmem, hc⟩
      · decide
      · obtain ⟨run, hrun, rfl⟩ := List.mem_map.mp hmem
        exact (hchars run hrun c hc).1
    · rcases hgap with rfl | rfl
      · cases hc
      · rw [List.mem_singleton.mp hc]
        decide
  -- Blanks stand between runs only, so removing them gives the runs back.
  have hblank : blankFree (runsText runs ++ gap) = runs.map fun run ↦ run.flatMap text := by
    refine blankFree_intercalate ?_ hgap
    intro _ hmem
    obtain ⟨run, hrun, rfl⟩ := List.mem_map.mp hmem
    refine ⟨?_, fun c hc ↦ (hchars run hrun c hc).2⟩
    match run, (hruns run hrun).1 with
    | w :: _, _ => exact List.cons_ne_nil _ _
  have hstrip := stripComments_append_remark (fun c hc ↦ ne_of_isPlainCode (hcode c hc)) hremark
  have hsame := upperCase_eq_self fun c hc ↦ upperCaseOf_of_isPlainCode (hcode c hc)
  rw [ofLine, hstrip, ofText, ofCode, hsame, hblank,
    List.flatMap_map, List.flatMap_congr fun run hrun ↦ ofRun_flatMap_text (hruns run hrun).2,
    List.flatMap_id']

end Word

end Engraving
