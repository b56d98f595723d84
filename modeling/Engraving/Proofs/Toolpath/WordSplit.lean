import Engraving.Proofs.Toolpath.AddressWord

/-!
# The words of a text

Which words a text holds can be told without cutting it. The text falls into runs at its blanks, and
the words of a run are the one list that meets four conditions:

* written one after another, they are the run from its first letter on;
* every word begins with a letter;
* a letter inside a value is the mark of an exponent: an E directly behind the sign, the digits and
  the points that the value begins with, and in front of digits of its own;
* such a mark is never left outside, where it would begin a word.

That there is only one such list is seen at the first place where two of them differ. One has a
letter inside a value there, which must be the mark of an exponent; for the other the same letter
begins a word, which a mark never does.
-/

namespace Engraving

/-! ## Runs -/

/-- The longest stretches of a text that hold no blank, in order. -/
inductive HasRuns : List Char → List (List Char) → Prop
  | nil {gap : List Char} (hgap : ∀ c ∈ gap, isBlank c = true) : HasRuns gap []
  | cons {gap run rest : List Char} {later : List (List Char)}
      (hgap : ∀ c ∈ gap, isBlank c = true) (hne : run ≠ []) (hrun : ∀ c ∈ run, isBlank c = false)
      (hrest : ∀ c ∈ rest.head?, isBlank c = true) (hlater : HasRuns rest later) :
      HasRuns (gap ++ (run ++ rest)) (run :: later)

variable {code : List Char} {runs : List (List Char)}

theorem of_head?_dropWhile {p : Char → Bool} {c : Char} (h : c ∈ (code.dropWhile p).head?) :
    p c = false := by
  have hhead := List.head?_dropWhile_not p code
  rw [Option.mem_def.mp h] at hhead
  exact hhead

theorem HasRuns.blankFree_eq (h : HasRuns code runs) : blankFree code = runs := by
  induction h with
  | nil hgap => exact blankFree_append_gap hgap []
  | @cons gap run rest later hgap hne hrun hrest _ ih =>
    have hstop : rest.takeWhile isInk = [] ∧ rest.dropWhile isInk = rest := by
      match rest with
      | [] => exact ⟨rfl, rfl⟩
      | b :: rest =>
        have hb : ¬ isInk b = true := fun hink ↦ isInk_iff.mp hink (hrest b rfl)
        exact ⟨List.takeWhile_cons_of_neg hb, List.dropWhile_cons_of_neg hb⟩
    rw [blankFree_gap_append hgap, blankFree_append_eq hne hrun, hstop.1, hstop.2, ih,
      List.append_nil]

/-- The blanks in front are cut off, then the run behind them, then the rest is cut. -/
theorem exists_hasRuns (code : List Char) : ∃ runs, HasRuns code runs := by
  have hgap : ∀ c ∈ code.takeWhile isBlank, isBlank c = true := fun _ ↦ List.mem_takeWhile_imp
  have hsplit := List.takeWhile_append_dropWhile (p := isBlank) (l := code)
  match hbehind : code.dropWhile isBlank with
  | [] =>
    rw [hbehind, List.append_nil] at hsplit
    exact ⟨[], hsplit ▸ .nil hgap⟩
  | c :: rest =>
    have hc : isInk c = true := by
      rw [isInk, of_head?_dropWhile (Option.mem_def.mpr (congrArg List.head? hbehind))]
      rfl
    have hrun : ∀ d ∈ (c :: rest).takeWhile isInk, isBlank d = false := fun d hd ↦
      Bool.eq_false_of_not_eq_true (isInk_iff.mp (List.mem_takeWhile_imp hd))
    have hne : (c :: rest).takeWhile isInk ≠ [] := by
      rw [List.takeWhile_cons_of_pos hc]
      exact List.cons_ne_nil _ _
    have hrest : ∀ d ∈ ((c :: rest).dropWhile isInk).head?, isBlank d = true := by
      intro d hd
      have hstop := of_head?_dropWhile hd
      rwa [isInk, Bool.not_eq_false'] at hstop
    have hshorter : ((c :: rest).dropWhile isInk).length < code.length := by
      have hle := (List.dropWhile_suffix (l := rest) isInk).length_le
      rw [← hsplit, hbehind, List.dropWhile_cons_of_pos hc, List.length_append, List.length_cons]
      omega
    obtain ⟨later, hlater⟩ := exists_hasRuns ((c :: rest).dropWhile isInk)
    have hruns := HasRuns.cons hgap hne hrun hrest hlater
    rw [List.takeWhile_append_dropWhile, ← hbehind, hsplit] at hruns
    exact ⟨_, hruns⟩
termination_by code.length

theorem blankFree_eq_iff : blankFree code = runs ↔ HasRuns code runs := by
  constructor
  · rintro rfl
    obtain ⟨runs, hruns⟩ := exists_hasRuns code
    rwa [hruns.blankFree_eq]
  · exact HasRuns.blankFree_eq

namespace Word

/-! ## Values -/

/-- What a value may begin with: perhaps a sign, then digits and points. -/
def IsLead (lead : List Char) : Prop :=
  ∃ (sign : SignMark) (places : List Char), lead = sign.text ++ places ∧
    ∀ c ∈ places, (c.isDigit || c = '.') = true

/-- The text begins with an exponent: an E, perhaps a sign, and at least one digit. -/
def BeginsExponent (code : List Char) : Prop :=
  ∃ (sign : SignMark) (digit : Char) (rest : List Char),
    code = 'E' :: (sign.text ++ digit :: rest) ∧ digit.isDigit = true

/-- The only letter inside a value is the mark of an exponent, directly behind what the value begins
with. -/
def IsValue (value : List Char) : Prop :=
  ∀ before c after, value = before ++ c :: after → isAddress c = true →
    IsLead before ∧ BeginsExponent (c :: after) ∧ ∀ d ∈ after, isAddress d = false

/-- A value ends where `rest` begins: at a letter, unless it is the mark of an exponent. -/
structure IsCut (value rest : List Char) : Prop where
  isValue : IsValue value
  isAddress_head : ∀ c ∈ rest.head?, isAddress c = true
  not_beginsExponent : IsLead value → ¬ BeginsExponent rest

variable {value lead rest : List Char} {c : Char}

theorem isAddress_of_mem_sign {sign : SignMark} (h : c ∈ sign.text) : isAddress c = false := by
  cases sign with
  | none => cases h
  | plus =>
    rw [List.mem_singleton.mp h]
    rfl
  | minus =>
    rw [List.mem_singleton.mp h]
    rfl

theorem isAddress_of_isPlace (h : (c.isDigit || c = '.') = true) : isAddress c = false := by
  by_contra hc
  rw [isPlace_of_isAddress (Bool.not_eq_false _ ▸ hc)] at h
  cases h

theorem IsLead.isAddress_eq_false (h : IsLead lead) (hc : c ∈ lead) : isAddress c = false := by
  obtain ⟨sign, places, rfl, hplaces⟩ := h
  rcases List.mem_append.mp hc with hc | hc
  · exact isAddress_of_mem_sign hc
  · exact isAddress_of_isPlace (hplaces c hc)

theorem BeginsExponent.append (h : BeginsExponent code) (rest : List Char) :
    BeginsExponent (code ++ rest) := by
  obtain ⟨sign, digit, behind, rfl, hdigit⟩ := h
  refine ⟨sign, digit, behind ++ rest, ?_, hdigit⟩
  rw [List.cons_append, List.append_assoc, List.cons_append]

theorem exists_of_append_eq_append_cons {front behind before after : List Char}
    (h : front ++ behind = before ++ c :: after) (hc : c ∉ front) :
    ∃ mid, before = front ++ mid ∧ behind = mid ++ c :: after := by
  rcases List.append_eq_append_iff.mp h with hmid | ⟨mid, hfront, hafter⟩
  · exact hmid
  match mid with
  | [] => exact ⟨[], by rw [hfront, List.append_nil, List.append_nil], hafter.symm⟩
  | d :: mid =>
    obtain ⟨rfl, -⟩ := List.cons.inj hafter
    rw [hfront] at hc
    exact absurd (List.mem_append_right before List.mem_cons_self) hc

/-- A value is made of what it begins with, perhaps an exponent, and filler without letters. -/
theorem isValue_append {exponent filler : List Char} (hlead : IsLead lead)
    (hexponent : exponent ≠ [] → BeginsExponent exponent)
    (htail : ∀ d ∈ exponent.tail, isAddress d = false)
    (hfiller : ∀ d ∈ filler, isAddress d = false) :
    IsValue (lead ++ (exponent ++ filler)) := by
  intro before c after heq hc
  have hno {part : List Char} (hpart : ∀ d ∈ part, isAddress d = false) : c ∉ part := by
    intro hmem
    rw [hpart c hmem] at hc
    cases hc
  obtain ⟨mid, rfl, hmid⟩ :=
    exists_of_append_eq_append_cons heq (hno fun _ ↦ hlead.isAddress_eq_false)
  match exponent with
  | [] =>
    rw [List.nil_append] at hmid
    refine absurd ?_ (hno hfiller)
    rw [hmid]
    exact List.mem_append_right mid List.mem_cons_self
  | mark :: power =>
    have hpower : ∀ d ∈ power ++ filler, isAddress d = false :=
      List.forall_mem_append.mpr ⟨htail, hfiller⟩
    -- A letter behind what the value begins with is the mark, or it would be in the filler.
    match mid with
    | [] =>
      obtain ⟨rfl, rfl⟩ := List.cons.inj hmid
      rw [List.append_nil]
      exact ⟨hlead, (hexponent (List.cons_ne_nil _ _)).append filler, hpower⟩
    | _ :: mid =>
      have hmore : power ++ filler = mid ++ c :: after := (List.cons.inj hmid).2
      refine absurd ?_ (hno hpower)
      rw [hmore]
      exact List.mem_append_right mid List.mem_cons_self

/-! ## Cutting -/

theorem exists_cutSign_eq (code : List Char) : ∃ sign : SignMark, (cutSign code).1 = sign.text := by
  match code with
  | [] => exact ⟨.none, rfl⟩
  | c :: rest =>
    rw [cutSign]
    split
    · next hc =>
      rw [Bool.or_eq_true, decide_eq_true_iff, decide_eq_true_iff] at hc
      rcases hc with rfl | rfl
      · exact ⟨.minus, rfl⟩
      · exact ⟨.plus, rfl⟩
    · exact ⟨.none, rfl⟩

theorem beginsExponent_cutExponent (h : (cutExponent code).1 ≠ []) :
    BeginsExponent (cutExponent code).1 ∧ ∀ d ∈ (cutExponent code).1.tail, isAddress d = false := by
  match code with
  | [] => exact absurd rfl h
  | c :: rest =>
    obtain ⟨sign, hsign⟩ := exists_cutSign_eq rest
    rw [cutExponent] at h ⊢
    dsimp only at h ⊢
    rw [hsign] at h ⊢
    split at h
    · next hc =>
      rw [if_pos hc]
      rw [Bool.and_eq_true, decide_eq_true_iff, Bool.not_eq_true'] at hc
      obtain ⟨rfl, hdigits⟩ := hc
      have hall : ∀ d ∈ (cutWhile Char.isDigit (cutSign rest).2).1, d.isDigit = true :=
        fun _ ↦ List.mem_takeWhile_imp
      cases hcut : (cutWhile Char.isDigit (cutSign rest).2).1 with
      | nil =>
        rw [hcut] at hdigits
        cases hdigits
      | cons digit more =>
        rw [hcut] at hall
        refine ⟨⟨sign, digit, more, rfl, hall digit List.mem_cons_self⟩, fun d hd ↦ ?_⟩
        rcases List.mem_append.mp hd with hd | hd
        · exact isAddress_of_mem_sign hd
        · exact isAddress_of_isNumeral (isNumeral_of_isDigit (hall d hd))
    · exact absurd rfl h

theorem cutExponent_ne_nil (h : BeginsExponent code) : (cutExponent code).1 ≠ [] := by
  obtain ⟨sign, digit, rest, rfl, hdigit⟩ := h
  have hsign : cutSign (sign.text ++ digit :: rest) = (sign.text, digit :: rest) := by
    refine sign.cutSign_text_append ?_
    rintro _ ⟨⟩
    constructor <;> rintro rfl <;> cases hdigit
  have hdigits : (cutWhile Char.isDigit (digit :: rest)).1.isEmpty = false := by
    rw [cutWhile, List.takeWhile_cons_of_pos hdigit]
    rfl
  rw [cutExponent, hsign]
  dsimp only
  rw [hdigits, if_pos (by decide)]
  exact List.cons_ne_nil _ _

/-- An exponent behind what a value begins with is taken along. -/
theorem cutValue_append_ne (hlead : IsLead lead) (hrest : BeginsExponent rest) :
    (cutValue (lead ++ rest)).1 ≠ lead := by
  have hexponent := cutExponent_ne_nil hrest
  obtain ⟨sign, places, rfl, hplaces⟩ := hlead
  obtain ⟨mark, digit, behind, rfl, -⟩ := hrest
  have hsign : cutSign (sign.text ++ (places ++ 'E' :: (mark.text ++ digit :: behind)))
      = (sign.text, places ++ 'E' :: (mark.text ++ digit :: behind)) := by
    refine sign.cutSign_text_append fun c hc ↦ ?_
    rw [List.head?_append, Option.mem_def, Option.or_eq_some_iff] at hc
    rcases hc with hc | ⟨-, hc⟩
    · have hplace := hplaces c (List.mem_of_mem_head? hc)
      constructor <;> rintro rfl <;> cases hplace
    · cases hc
      decide
  have hcut := cutWhile_append_of_head? (p := fun c ↦ c.isDigit || c = '.') places
    ('E' :: (mark.text ++ digit :: behind)) (by rintro _ ⟨⟩; rfl)
  rw [List.takeWhile_eq_self_iff.mpr hplaces, List.dropWhile_eq_nil_iff.mpr hplaces,
    List.nil_append] at hcut
  rw [List.append_assoc, cutValue, hsign]
  dsimp only
  rw [hcut, List.append_assoc]
  dsimp only
  rw [Ne, List.append_right_eq_self, List.append_eq_nil_iff]
  exact fun h ↦ hexponent h.1

theorem isCut_cutValue (code : List Char) : IsCut (cutValue code).1 (cutValue code).2 := by
  have hfiller (rest : List Char) : ∀ d ∈ rest.takeWhile fun c ↦ !isAddress c,
      isAddress d = false := by
    intro d hd
    have hd : (!isAddress d) = true := List.mem_takeWhile_imp (p := fun c ↦ !isAddress c) hd
    rwa [Bool.not_eq_true'] at hd
  refine ⟨?_, fun c hc ↦ ?_, fun hlead hrest ↦ ?_⟩
  · obtain ⟨sign, hsign⟩ := exists_cutSign_eq code
    rw [cutValue]
    dsimp only
    rw [hsign, List.append_assoc (sign.text ++ _)]
    refine isValue_append ⟨sign, _, rfl, fun _ ↦ List.mem_takeWhile_imp⟩
      (fun h ↦ (beginsExponent_cutExponent h).1) (fun d hd ↦ ?_) (hfiller _)
    exact (beginsExponent_cutExponent fun hnone ↦ by rw [hnone] at hd; cases hd).2 d hd
  · rw [cutValue] at hc
    have hstop : (!isAddress c) = false := of_head?_dropWhile (p := fun c ↦ !isAddress c) hc
    rwa [Bool.not_eq_false'] at hstop
  · have hne := cutValue_append_ne hlead hrest
    rw [cutValue_append] at hne
    exact hne rfl

theorem IsCut.unique {value' rest' : List Char} (h : IsCut value rest) (h' : IsCut value' rest')
    (heq : value ++ rest = value' ++ rest') : value = value' ∧ rest = rest' := by
  -- The first letter of what one value holds more than the other would be the mark of an exponent.
  have hsame {value more rest : List Char} (hshort : IsCut value (more ++ rest))
      (hlong : IsCut (value ++ more) rest) : more = [] := by
    match more with
    | [] => rfl
    | c :: more =>
      obtain ⟨hlead, hbegins, -⟩ := hlong.isValue value c more rfl (hshort.isAddress_head c rfl)
      exact absurd (hbegins.append rest) (hshort.not_beginsExponent hlead)
  rcases List.append_eq_append_iff.mp heq with ⟨more, rfl, rfl⟩ | ⟨more, rfl, rfl⟩
  · rw [hsame h h', List.append_nil, List.nil_append]
    exact ⟨rfl, rfl⟩
  · rw [hsame h' h, List.append_nil, List.nil_append]
    exact ⟨rfl, rfl⟩

/-! ## The words of a run -/

/-- These are the words of a run. -/
structure IsSplit (run : List Char) (words : List Word) : Prop where
  /-- Written one after another they are the run from its first letter on. -/
  flatMap_text : words.flatMap text = run.dropWhile fun c ↦ !isAddress c
  isAddress : ∀ w ∈ words, Word.isAddress w.letter = true
  /-- A letter inside a value is the mark of an exponent. -/
  isValue : ∀ w ∈ words, IsValue w.value
  /-- The mark of an exponent never begins a word. -/
  not_beginsExponent : ∀ front w back, words = front ++ w :: back → IsLead w.value →
    ¬ BeginsExponent (back.flatMap text)

variable {run : List Char} {words later : List Word} {w : Word}

theorem dropWhile_eq_self (h : ∀ c ∈ rest.head?, isAddress c = true) :
    (rest.dropWhile fun c ↦ !isAddress c) = rest := by
  match rest with
  | [] => rfl
  | c :: rest =>
    refine List.dropWhile_cons_of_neg ?_
    rw [h c rfl]
    exact Bool.false_ne_true

theorem isAddress_head_flatMap_text (h : ∀ w ∈ words, isAddress w.letter = true) :
    ∀ c ∈ (words.flatMap text).head?, isAddress c = true := by
  match words with
  | [] =>
    rintro c ⟨⟩
  | w :: _ =>
    rintro c ⟨⟩
    exact h w List.mem_cons_self

theorem isSplit_cons_iff (hc : isAddress c = true) :
    IsSplit (c :: rest) (w :: later) ↔
      c = w.letter ∧ ∃ behind, rest = w.value ++ behind ∧ IsCut w.value behind ∧
        IsSplit behind later := by
  have hrun : ((c :: rest).dropWhile fun c ↦ !isAddress c) = c :: rest :=
    dropWhile_eq_self (by rintro _ ⟨⟩; exact hc)
  constructor
  · rintro ⟨htext, haddress, hvalue, hexponent⟩
    obtain ⟨hw, hlater⟩ := List.forall_mem_cons.mp haddress
    obtain ⟨hwvalue, hlatervalue⟩ := List.forall_mem_cons.mp hvalue
    rw [hrun, List.flatMap_cons, text, List.cons_append] at htext
    obtain ⟨rfl, rfl⟩ := List.cons.inj htext
    have hhead := isAddress_head_flatMap_text hlater
    refine ⟨rfl, later.flatMap text, rfl, ⟨hwvalue, hhead, hexponent [] w later rfl⟩,
      (dropWhile_eq_self hhead).symm, hlater, hlatervalue, ?_⟩
    rintro front v back rfl
    exact hexponent (w :: front) v back rfl
  · rintro ⟨rfl, behind, rfl, hcut, hsplit⟩
    have hbehind : later.flatMap text = behind := by
      rw [hsplit.flatMap_text, dropWhile_eq_self hcut.isAddress_head]
    refine ⟨?_, List.forall_mem_cons.mpr ⟨hc, hsplit.isAddress⟩,
      List.forall_mem_cons.mpr ⟨hcut.isValue, hsplit.isValue⟩, ?_⟩
    · rw [hrun, List.flatMap_cons, hbehind, text, List.cons_append]
    · intro front v back heq
      cases front with
      | nil =>
        obtain ⟨rfl, rfl⟩ := List.cons.inj heq
        rw [hbehind]
        exact hcut.not_beginsExponent
      | cons _ front =>
        exact hsplit.not_beginsExponent front v back (List.cons.inj heq).2

theorem isSplit_cons_of_not_isAddress (hc : ¬ isAddress c = true) :
    IsSplit (c :: rest) words ↔ IsSplit rest words := by
  have hrun : ((c :: rest).dropWhile fun c ↦ !isAddress c) = rest.dropWhile fun c ↦ !isAddress c :=
    List.dropWhile_cons_of_pos (by rw [Bool.eq_false_of_not_eq_true hc]; rfl)
  constructor
  · intro h
    exact ⟨h.flatMap_text.trans hrun, h.isAddress, h.isValue, h.not_beginsExponent⟩
  · intro h
    exact ⟨h.flatMap_text.trans hrun.symm, h.isAddress, h.isValue, h.not_beginsExponent⟩

theorem eq_nil_of_flatMap_text (h : words.flatMap text = []) : words = [] := by
  match words with
  | [] => rfl
  | w :: words => cases h

/-- The words of a run are told by the four conditions. -/
theorem ofRun_eq_iff : ofRun run = words ↔ IsSplit run words := by
  induction run using ofRun.induct generalizing words with
  | case1 =>
    rw [ofRun]
    constructor
    · rintro rfl
      refine ⟨rfl, by simp, by simp, fun front w back h ↦ ?_⟩
      cases front <;> cases h
    · intro h
      exact (eq_nil_of_flatMap_text h.flatMap_text).symm
  | case2 c rest hc ih =>
    rw [ofRun, if_pos hc]
    cases words with
    | nil =>
      refine iff_of_false (List.cons_ne_nil _ _) fun h ↦ ?_
      have htext := h.flatMap_text
      rw [dropWhile_eq_self (by rintro _ ⟨⟩; exact hc)] at htext
      cases htext
    | cons w later =>
      rw [isSplit_cons_iff hc, List.cons.injEq]
      constructor
      · rintro ⟨rfl, hlater⟩
        exact ⟨rfl, _, (cutValue_append rest).symm, isCut_cutValue rest, ih.mp hlater⟩
      · rintro ⟨rfl, behind, hrest, hcut, hsplit⟩
        obtain ⟨hvalue, hbehind⟩ :=
          (isCut_cutValue rest).unique hcut ((cutValue_append rest).trans hrest)
        rw [hvalue, ih, hbehind]
        exact ⟨rfl, hsplit⟩
  | case3 c rest hc ih =>
    rw [ofRun, if_neg hc, ih, isSplit_cons_of_not_isAddress hc]

/-- **The words of a text are the words of its runs, and nothing is lost or invented.** -/
theorem ofCode_eq_iff {code : List Char} : ofCode code = words ↔
    ∃ runs groups, HasRuns code runs ∧ List.Forall₂ IsSplit runs groups ∧
      words = groups.flatten := by
  constructor
  · rintro rfl
    refine ⟨blankFree code, (blankFree code).map ofRun, blankFree_eq_iff.mp rfl, ?_, ?_⟩
    · rw [List.forall₂_map_right_iff, List.forall₂_same]
      exact fun run _ ↦ ofRun_eq_iff.mp rfl
    · rw [ofCode, List.flatMap_def]
  · rintro ⟨runs, groups, hruns, hgroups, rfl⟩
    have hmap : runs.map ofRun = groups := by
      rw [← List.forall₂_eq_eq_eq, List.forall₂_map_left_iff]
      exact hgroups.imp fun _ _ ↦ ofRun_eq_iff.mpr
    rw [ofCode, blankFree_eq_iff.mpr hruns, List.flatMap_def, hmap]

/-- Of three letters E the first is the mark of an exponent, and the others begin words. -/
example : ofCode "?X1.5E-2E3 E4".toList
    = [⟨'X', "1.5E-2".toList⟩, ⟨'E', "3".toList⟩, ⟨'E', "4".toList⟩] := by
  decide +kernel

end Word

end Engraving
