import Engraving.Program.Compiler
import Engraving.Text.Character
import Mathlib.Data.List.TakeWhile

/-!
# Lines written and read

Lines that hold no line end themselves are read back from a program text as they were written. Text
behind a line feed begins a line, so its lines come behind those that went before. And a line that
neither begins nor ends with a blank is not changed by trimming.
-/

namespace Engraving

/-! ## Lines of a program text -/

theorem linesFrom_cons {c : Char} (hc : isLineEnd c = false) (done : List (List Char))
    (line rest : List Char) :
    linesFrom done line (c :: rest) = linesFrom done (c :: line) rest := by
  have hapart : ∀ rest', c = '\r' → rest = '\n' :: rest' → False := by
    rintro _ rfl
    exact absurd hc (by decide)
  rw [linesFrom.eq_3 _ _ _ _ hapart, hc, if_neg Bool.false_ne_true]

theorem linesFrom_append_lineFeed {text : List Char} (h : ∀ c ∈ text, isLineEnd c = false)
    (done : List (List Char)) (line rest : List Char) :
    linesFrom done line (text ++ '\n' :: rest)
      = linesFrom ((line.reverse ++ text) :: done) [] rest := by
  induction text generalizing line with
  | nil =>
    rw [List.nil_append, linesFrom.eq_3 _ _ _ _ (by rintro _ ⟨⟩), if_pos (by decide),
      List.append_nil]
  | cons c text ih =>
    rw [List.cons_append, linesFrom_cons (h c List.mem_cons_self),
      ih fun d hd ↦ h d (List.mem_cons_of_mem _ hd), List.reverse_cons, List.append_assoc,
      List.singleton_append]

theorem lines_flatMap_lineFeed {texts : List (List Char)}
    (h : ∀ text ∈ texts, ∀ c ∈ text, isLineEnd c = false) :
    lines (texts.flatMap (· ++ ['\n'])) = texts := by
  have hfrom (done : List (List Char)) :
      linesFrom done [] (texts.flatMap (· ++ ['\n'])) = done.reverse ++ texts := by
    induction texts generalizing done with
    | nil =>
      rw [List.flatMap_nil, linesFrom, List.append_nil]
      rfl
    | cons text rest ih =>
      obtain ⟨htext, hrest⟩ := List.forall_mem_cons.mp h
      rw [List.flatMap_cons, List.append_assoc, List.singleton_append,
        linesFrom_append_lineFeed htext, ih hrest, List.reverse_cons, List.append_assoc]
      rfl
  exact hfrom []

theorem intercalate_append_lineFeed {texts : List (List Char)} (hne : texts ≠ []) :
    ['\n'].intercalate texts ++ ['\n'] = texts.flatMap (· ++ ['\n']) := by
  induction texts with
  | nil => exact absurd rfl hne
  | cons text rest ih =>
    cases rest with
    | nil => rw [List.intercalate_singleton, List.flatMap_singleton]
    | cons next rest =>
      rw [List.intercalate_cons_cons, List.flatMap_cons, List.append_assoc, List.append_assoc,
        ih (List.cons_ne_nil next rest), List.append_assoc]

/-- Lines without line ends are read back as they were written. -/
theorem lines_programText {texts : List String} (hne : texts ≠ [])
    (h : ∀ text ∈ texts, ∀ c ∈ text.toList, isLineEnd c = false) :
    lines (programText texts).toList = texts.map String.toList := by
  have htexts : ∀ text ∈ texts.map String.toList, ∀ c ∈ text, isLineEnd c = false := by
    intro _ hmem
    obtain ⟨text, htext, rfl⟩ := List.mem_map.mp hmem
    exact h text htext
  have hne' : texts.map String.toList ≠ [] := fun hnil ↦ hne (List.map_eq_nil_iff.mp hnil)
  rw [programText, String.toList_append, String.toList_intercalate]
  exact (congrArg lines (intercalate_append_lineFeed hne')).trans (lines_flatMap_lineFeed htexts)

/-! ## One text behind another -/

/-- The text is empty or ends with a line feed, so that what follows it begins a line. -/
def EndsLine (text : List Char) : Prop := ∀ c ∈ text.getLast?, c = '\n'

instance (text : List Char) : Decidable (EndsLine text) :=
  inferInstanceAs (Decidable (∀ c ∈ text.getLast?, c = '\n'))

theorem EndsLine.tail {c : Char} {rest : List Char} (h : EndsLine (c :: rest)) : EndsLine rest := by
  match rest with
  | [] => rintro d ⟨⟩
  | _ :: _ => rwa [EndsLine, List.getLast?_cons_cons] at h

/-- Reading goes on behind a line feed as if the text began there. -/
theorem linesFrom_append_text (done : List (List Char)) (line : List Char) {first : List Char}
    (h : EndsLine first) (hline : first = [] → line = []) (second : List Char) :
    linesFrom done line (first ++ second)
      = linesFrom (linesFrom done line first).reverse [] second := by
  fun_induction linesFrom done line first with
  | case1 done line =>
    obtain rfl := hline rfl
    simp
  | case2 done line rest ih =>
    rw [List.cons_append, List.cons_append, linesFrom]
    exact ih h.tail.tail fun _ ↦ rfl
  | case3 done line c rest apart ends ih =>
    -- A carriage return is not the last character, so nothing of the second text follows it.
    have hapart : ∀ rest', c = '\r' → rest ++ second = '\n' :: rest' → False := by
      intro rest' hc hrest
      rcases rest with _ | ⟨d, rest⟩
      · have hfeed := h c rfl
        rw [hc] at hfeed
        cases hfeed
      · exact apart rest hc (by rw [(List.cons.inj hrest).1])
    rw [List.cons_append, linesFrom.eq_3 _ _ _ _ hapart, if_pos ends]
    exact ih h.tail fun _ ↦ rfl
  | case4 done line c rest apart inside ih =>
    have hne : rest ≠ [] := by
      rintro rfl
      obtain rfl := h c rfl
      exact inside (by decide)
    rw [List.cons_append, linesFrom_cons (Bool.eq_false_iff.mpr inside)]
    exact ih h.tail fun hnil ↦ absurd hnil hne

/-- The lines of a text that is put behind whole lines come behind them. -/
theorem lines_append {first : List Char} (h : EndsLine first) (second : List Char) :
    lines (first ++ second) = lines first ++ lines second := by
  have hbegin := linesFrom_append [] (lines first).reverse [] second
  rw [List.nil_append, List.reverse_reverse] at hbegin
  rw [lines, linesFrom_append_text [] [] h (fun _ ↦ rfl)]
  exact hbegin

/-! ## Trimming -/

theorem dropWhile_isBlank_append {gap text : List Char} (hgap : ∀ c ∈ gap, isBlank c = true)
    (h : ∀ c ∈ text.head?, isBlank c = false) : (gap ++ text).dropWhile isBlank = text := by
  rw [List.dropWhile_append_of_pos hgap]
  match text with
  | [] => rfl
  | c :: rest => rw [List.dropWhile_cons_of_neg (by rw [h c rfl]; exact Bool.false_ne_true)]

theorem trimStart_append {gap text : List Char} (hgap : ∀ c ∈ gap, isBlank c = true)
    (h : ∀ c ∈ text.head?, isBlank c = false) : trimStart (gap ++ text) = text :=
  dropWhile_isBlank_append hgap h

theorem trimEnd_append {text gap : List Char} (h : ∀ c ∈ text.getLast?, isBlank c = false)
    (hgap : ∀ c ∈ gap, isBlank c = true) : trimEnd (text ++ gap) = text := by
  have hreverse : ∀ c ∈ gap.reverse, isBlank c = true :=
    fun c hc ↦ hgap c (List.mem_reverse.mp hc)
  rw [trimEnd, List.reverse_append,
    dropWhile_isBlank_append hreverse (by rwa [List.head?_reverse]), List.reverse_reverse]

theorem trim_eq_self {text : List Char} (hfirst : ∀ c ∈ text.head?, isBlank c = false)
    (hlast : ∀ c ∈ text.getLast?, isBlank c = false) : trim text = text := by
  have hstart := trimStart_append (List.forall_mem_nil _) hfirst
  have hend := trimEnd_append hlast (List.forall_mem_nil _)
  rw [List.nil_append] at hstart
  rw [List.append_nil] at hend
  rw [trim, hstart, hend]

theorem dropWhile_isBlank_append_cons {c : Char} (hc : isBlank c = false) (front rest : List Char) :
    (front ++ c :: rest).dropWhile isBlank = front.dropWhile isBlank ++ c :: rest := by
  rw [List.dropWhile_append, List.dropWhile_cons_of_neg (by rw [hc]; exact Bool.false_ne_true)]
  split
  · next hnone => rw [List.isEmpty_iff.mp hnone, List.nil_append]
  · rfl

/-- Nothing is taken away in front of a character that is no blank. -/
theorem trimEnd_append_cons {c : Char} (hc : isBlank c = false) (front rest : List Char) :
    trimEnd (front ++ c :: rest) = front ++ c :: trimEnd rest := by
  rw [trimEnd, List.reverse_append, List.reverse_cons, List.append_assoc, List.singleton_append,
    dropWhile_isBlank_append_cons hc, List.reverse_append, List.reverse_cons, List.reverse_reverse,
    List.append_assoc, List.singleton_append, trimEnd]

/-- Trimming stops from either side at a character that is no blank. -/
theorem trim_append_cons {c : Char} (hc : isBlank c = false) (front rest : List Char) :
    trim (front ++ c :: rest) = trimStart front ++ c :: trimEnd rest := by
  rw [trim, trimStart, dropWhile_isBlank_append_cons hc, trimEnd_append_cons hc, trimStart]

end Engraving
