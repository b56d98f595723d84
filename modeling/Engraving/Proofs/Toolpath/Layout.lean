import Engraving.Proofs.Toolpath.TypedLine

/-!
# Layout

How the lines of a program are typed does not matter. All ways to type a line give the same words,
save for the zeros in front of codes, and words that differ in no more than that do the same to the
head. So the text is read as the plain text of its words, where nothing is glued and nothing is said
beside the words.
-/

namespace Engraving

/-! ## Words that do the same -/

/-- Two words that are equal, or codes with the same number. -/
def Word.IsAlike (w v : Word) : Prop := w = v ∨ w.letter = 'G' ∧ v.letter = 'G' ∧ w.code? = v.code?

theorem AddressWord.IsVariant.isAlike {v w : AddressWord} (h : v.IsVariant w) :
    v.toWord.IsAlike w.toWord := by
  obtain ⟨hletter, hvalue | ⟨hcode, hvalue⟩⟩ := h
  · exact .inl (by rw [toWord, toWord, hletter, hvalue])
  · refine .inr ⟨hletter.trans hcode, hcode, ?_⟩
    rw [Word.code?, Word.code?, toWord, toWord, hvalue.readFloat?_eq]

namespace Word.IsAlike

variable {w v : Word} {words words' : List Word}

theorem lineCodes_word (h : w.IsAlike v) (c : LineCodes) : c.word w = c.word v := by
  rcases h with rfl | ⟨hw, hv, hcode⟩
  · rfl
  · rw [LineCodes.word, LineCodes.word, hw, hv, hcode]

theorem headPosition_word (h : w.IsAlike v) (absolute : Bool) (p : HeadPosition) :
    p.word absolute w = p.word absolute v := by
  have hcode {u : Word} (hu : u.letter = 'G') : p.word absolute u = p := by
    rw [HeadPosition.word, hu]
    cases u.number? <;> rfl
  rcases h with rfl | ⟨hw, hv, -⟩
  · rfl
  · rw [hcode hw, hcode hv]

theorem find?_isBadCoordinate (h : List.Forall₂ IsAlike words words') :
    words.find? isBadCoordinate = words'.find? isBadCoordinate := by
  have hcode {u : Word} (hu : u.letter = 'G') : ¬ u.isBadCoordinate = true := by
    rw [isBadCoordinate, hu]
    exact Bool.false_ne_true
  induction h with
  | nil => rfl
  | cons hw _ ih =>
    rcases hw with rfl | ⟨hw, hv, -⟩
    · rw [List.find?_cons, List.find?_cons, ih]
    · rw [List.find?_cons_of_neg (hcode hw), List.find?_cons_of_neg (hcode hv), ih]

/-- Taking up words one after the other does not tell them apart if taking up one does not. -/
theorem foldl_eq {σ : Type} {f : σ → Word → σ}
    (hstep : ∀ s {w v : Word}, w.IsAlike v → f s w = f s v)
    (h : List.Forall₂ IsAlike words words') (s : σ) : words.foldl f s = words'.foldl f s := by
  induction h generalizing s with
  | nil => rfl
  | cons hw _ ih => rw [List.foldl_cons, List.foldl_cons, hstep s hw, ih]

theorem headState_words (h : List.Forall₂ IsAlike words words') (strict : Bool) (number : ℕ)
    (s : HeadState) : s.words strict number words = s.words strict number words' := by
  have hcodes : LineCodes.ofWords s.positioning words = LineCodes.ofWords s.positioning words' :=
    foldl_eq (fun c _ _ hw ↦ hw.lineCodes_word c) h _
  have hfollow (absolute : Bool) :
      s.position.follow absolute words = s.position.follow absolute words' :=
    foldl_eq (fun p _ _ hw ↦ hw.headPosition_word absolute p) h _
  rw [HeadState.words, HeadState.words, hcodes]
  simp only [find?_isBadCoordinate h, hfollow]

end Word.IsAlike

/-- However words are typed, the line does to the head what the words do. -/
theorem IsTypedLine.line_trim {words : List AddressWord} {raw : List Char}
    (h : IsTypedLine words raw) (hwords : words.IsChain AddressWord.CanPrecede) (strict : Bool)
    (number : ℕ) (s : HeadState) :
    s.line strict number (trim raw) = s.words strict number (words.map AddressWord.toWord) := by
  obtain ⟨variants, hvariants, hread⟩ := h.exists_readWords_eq hwords
  have halike : List.Forall₂ Word.IsAlike (variants.map AddressWord.toWord)
      (words.map AddressWord.toWord) := by
    rw [List.forall₂_map_left_iff, List.forall₂_map_right_iff]
    exact hvariants.imp fun _ _ hv ↦ hv.isAlike
  rw [HeadState.line_trim_eq_words, hread, ← Word.IsAlike.headState_words halike]
  cases hvariants with
  | nil => exact absurd rfl h.ne_nil
  | cons _ _ => rfl

/-! ## Texts -/

namespace Toolpath

/-- The toolpath without the lines that are set aside, whose texts are kept as they are. -/
def withoutIdle (t : Toolpath) : Toolpath := { t with idleLines := [] }

def outline (t : Toolpath) : List (Segment Float) × ℕ × ℕ := (t.segments, t.arcCount, t.lineCount)

/-- Two lines that always do the same to the head. -/
def ReadAlike (raw raw' : List Char) : Prop :=
  ∀ (strict : Bool) (number : ℕ) (s : HeadState),
    s.line strict number (trim raw) = s.line strict number (trim raw')

variable (strict : Bool) {t t' : Toolpath}

theorem map_line_eq (ht : t.withoutIdle = t'.withoutIdle) {raw raw' : List Char}
    (h : ReadAlike raw raw') :
    (t.line strict raw).map withoutIdle = (t'.line strict raw').map withoutIdle := by
  simp only [withoutIdle, mk.injEq, and_true] at ht
  obtain ⟨hstate, hcount, harcs, hsegments⟩ := ht
  rw [line, line, hstate, hcount, h strict (t'.lineCount + 1) t'.state]
  cases t'.state.line strict (t'.lineCount + 1) (trim raw') with
  | error e => rfl
  | ok read =>
    obtain ⟨state, result⟩ := read
    change Except.ok (withoutIdle (t.outcome (trim raw) state result))
      = .ok (withoutIdle (t'.outcome (trim raw') state result))
    cases result <;> simp only [withoutIdle, outcome, hcount, harcs, hsegments]

/-- Two lines that always add the same to a path, though only one of them may be set aside. -/
def PathAlike (raw raw' : List Char) : Prop :=
  ∀ (strict : Bool) (t t' : Toolpath), t.withoutIdle = t'.withoutIdle →
    (t.line strict raw).map withoutIdle = (t'.line strict raw').map withoutIdle

theorem ReadAlike.pathAlike {raw raw' : List Char} (h : ReadAlike raw raw') : PathAlike raw raw' :=
  fun strict _ _ ht ↦ map_line_eq strict ht h

theorem PathAlike.refl (raw : List Char) : PathAlike raw raw :=
  ReadAlike.pathAlike fun _ _ _ ↦ rfl

/-- Lines that add the same, one by one, make the same path. -/
theorem map_foldlM_line_eq {read read' : List (List Char)}
    (h : List.Forall₂ PathAlike read read') (ht : t.withoutIdle = t'.withoutIdle) :
    (read.foldlM (line strict) t).map withoutIdle
      = (read'.foldlM (line strict) t').map withoutIdle := by
  induction h generalizing t t' with
  | nil => exact congrArg Except.ok ht
  | cons hraw _ ih =>
    rw [List.foldlM_cons, List.foldlM_cons]
    rcases eq_error_or_exists_of_map_eq (hraw strict t t' ht) with
      ⟨failure, hline, hline'⟩ | ⟨u, u', hline, hline', hu⟩
    · rw [hline, hline']
      rfl
    · rw [hline, hline']
      exact ih hu

theorem map_outline_ofText?_eq_of_pathAlike {text text' : List Char}
    (h : List.Forall₂ PathAlike (lines text) (lines text')) :
    (ofText? strict text).map outline = (ofText? strict text').map outline := by
  have hone (text : List Char) : (ofText? strict text).map outline
      = (((lines text).foldlM (line strict) {}).map withoutIdle).map fun t ↦ t.inOrder.outline := by
    rw [ofText?]
    cases (lines text).foldlM (line strict) {} <;> rfl
  rw [hone, hone, map_foldlM_line_eq strict h rfl]

theorem map_outline_ofText?_eq {text text' : List Char}
    (h : List.Forall₂ ReadAlike (lines text) (lines text')) :
    (ofText? strict text).map outline = (ofText? strict text').map outline :=
  map_outline_ofText?_eq_of_pathAlike strict (h.imp fun _ _ hraw ↦ hraw.pathAlike)

end Toolpath

/-! ## Typed texts -/

/-- A typed line does the same as the plain line of its words. -/
theorem IsTypedLine.readAlike {words : List AddressWord} {raw : List Char}
    (h : IsTypedLine words raw) (hwords : words.IsChain AddressWord.CanPrecede) :
    Toolpath.ReadAlike raw (plainLine words) := by
  intro strict number s
  rw [h.line_trim hwords, (isTypedLine_plainLine h.ne_nil).line_trim hwords]

theorem forall₂_readAlike {program : List (List AddressWord)} {read : List (List Char)}
    (hprogram : ∀ words ∈ program, words.IsChain AddressWord.CanPrecede)
    (h : List.Forall₂ IsTypedLine program read) :
    List.Forall₂ Toolpath.ReadAlike read (program.map plainLine) := by
  induction h with
  | nil => exact .nil
  | cons hline _ ih =>
    obtain ⟨hwords, hlater⟩ := List.forall_mem_cons.mp hprogram
    exact .cons (hline.readAlike hwords) (ih hlater)

/-- **Layout does not matter.** However the lines of a program are typed, as long as no E stands
directly behind a word without exponent, the text gives the same segments and the same numbers of
arcs and lines as the lines with one word per blank in upper case, and where reading fails for the
one it fails for the other, with the same error about the same line. -/
theorem Toolpath.ofText?_of_isTypedLine {program : List (List AddressWord)}
    (hprogram : ∀ words ∈ program, words.IsChain AddressWord.CanPrecede) {text : List Char}
    (htext : List.Forall₂ IsTypedLine program (lines text)) (strict : Bool) :
    lines (plainLines program) = program.map plainLine ∧
      (ofText? strict text).map outline = (ofText? strict (plainLines program)).map outline := by
  refine ⟨lines_plainLines program, map_outline_ofText?_eq strict ?_⟩
  rw [lines_plainLines]
  exact forall₂_readAlike hprogram htext

/-- A line with words glued together in mixed case, a zero in front of its code and an exponent in
front of an E, and a line with a coordinate that is no number. -/
def sampleText : List Char := "\tg01x1.5 Y-2e+1E5 ;arc\nG0 X\n".toList

theorem Toolpath.ofText?_of_isTypedLine_sampleText :
    ∃ program : List (List AddressWord),
      (∀ words ∈ program, words.IsChain AddressWord.CanPrecede) ∧
      List.Forall₂ IsTypedLine program (lines sampleText) ∧
      plainLines program = "G1 X1.5 Y-2E+1 E5\nG0 X\n".toList ∧
      (ofText? false sampleText).map outline = (ofText? false (plainLines program)).map outline ∧
      (ofText? true sampleText).map outline
        = (ofText? true (plainLines program)).map outline := by
  let code : ValueText := ⟨.none, [1], none, none⟩
  let later : List AddressWord := [⟨'X', rfl, ⟨.none, [1], some [5], none⟩⟩,
    ⟨'Y', rfl, ⟨.minus, [2], none, some ⟨.plus, [1], List.cons_ne_nil 1 []⟩⟩⟩,
    ⟨'E', rfl, ⟨.none, [5], none, none⟩⟩]
  let second : List AddressWord :=
    [⟨'G', rfl, ⟨.none, [0], none, none⟩⟩, ⟨'X', rfl, ⟨.none, [], none, none⟩⟩]
  have hprogram : ∀ words ∈ [⟨'G', rfl, code⟩ :: later, second],
      words.IsChain AddressWord.CanPrecede := by decide
  have hzeros : (code.padded 1).SameButZeros code :=
    ⟨by decide, by decide, code, 1, 0, rfl, rfl⟩
  have hvariants : List.Forall₂ AddressWord.IsVariant (⟨'G', rfl, code.padded 1⟩ :: later)
      (⟨'G', rfl, code⟩ :: later) :=
    .cons ⟨rfl, .inr ⟨rfl, hzeros⟩⟩ (List.forall₂_same.mpr fun w _ ↦ .refl w)
  have hpieces : List.Forall₂ AddressWord.IsTypedAs (⟨'G', rfl, code.padded 1⟩ :: later)
      ["g01".toList, "x1.5".toList, "Y-2e+1".toList, "E5".toList] :=
    .cons ⟨'g', 'E', .inr rfl, .inl rfl, rfl⟩ <|
    .cons ⟨'x', 'E', .inr rfl, .inl rfl, rfl⟩ <|
    .cons ⟨'Y', 'e', .inl rfl, .inr rfl, rfl⟩ <|
    .cons ⟨'E', 'E', .inl rfl, .inl rfl, rfl⟩ .nil
  have hnone : ∀ c ∈ ([] : List Char), isBlank c = true := by decide
  have hblank : ∀ c ∈ [' '], isBlank c = true := by decide
  have hbody := IsSpaced.cons "g01".toList hnone <| .cons "x1.5".toList hblank <|
    .cons "Y-2e+1".toList hnone <| .single "E5".toList
  have hlead : ∀ c ∈ ['\t'], isBlank c = true := by decide
  have hremark : ∀ c ∈ ";arc".toList.head?, c = ';' := by decide
  have hfirst : IsTypedLine (⟨'G', rfl, code⟩ :: later) "\tg01x1.5 Y-2e+1E5 ;arc".toList :=
    .intro hvariants hpieces hbody hlead hblank hremark
  have hsecond : IsTypedLine second "G0 X".toList :=
    isTypedLine_plainLine (List.cons_ne_nil _ _)
  have htext : List.Forall₂ IsTypedLine [⟨'G', rfl, code⟩ :: later, second] (lines sampleText) :=
    .cons hfirst (.cons hsecond .nil)
  exact ⟨_, hprogram, htext, by decide, (ofText?_of_isTypedLine hprogram htext false).2,
    (ofText?_of_isTypedLine hprogram htext true).2⟩

end Engraving
