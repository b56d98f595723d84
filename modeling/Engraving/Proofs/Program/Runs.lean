import Engraving.Proofs.Except
import Engraving.Proofs.Number.FloatSign
import Engraving.Proofs.Program.Coalescing
import Mathlib.Data.List.SplitBy

/-!
# Runs of moves

What coalescing does is said without its loop: the lines fall into groups, and every group gives one
line. A group is a run of neighbouring moves with the same sign and power, as long as it can be, or
a single line that is no move. There is just one way to group the lines like this, and just one line
that a group can give. The loop keeps the sum of one run, the run in front of the line that it looks
at; the step from one group to the next shows that nothing else is left of the lines before.
-/

namespace Engraving

/-! ## Groups -/

def IsMove (negative : Bool) (power : List Char) (line : String) (length : Float) : Prop :=
  ∃ m : WrittenMove, m.IsOn line ∧ m.negative = negative ∧ m.power = power ∧
    readFloat? m.number = some length

/-- Two lines that are moves with the same sign and with the same power. -/
def SameRun (a b : String) : Prop :=
  ∃ m n : WrittenMove, m.IsOn a ∧ n.IsOn b ∧ m.negative = n.negative ∧ m.power = n.power

/-- The lines in groups, of which each is a run that cannot be extended, or a single line. -/
structure IsGrouping (lines : List String) (groups : List (List String)) : Prop where
  flatten : groups.flatten = lines
  ne_nil : ∀ group ∈ groups, group ≠ []
  pairwise : ∀ group ∈ groups, group.Pairwise SameRun
  /-- Where one group ends and the next begins there is no run. -/
  isChain : groups.IsChain fun group next ↦
    ∀ a ∈ group.getLast?, ∀ b ∈ next.head?, ¬ SameRun a b

/-- The line that a group gives. -/
inductive IsSettledAs : List String → String → Prop
  | line {text : String} (h : ∀ m : WrittenMove, ¬ m.IsOn text) : IsSettledAs [text] text
  | run {group : List String} {negative : Bool} {power : List Char} {first : Float}
    {rest : List Float} (h : List.Forall₂ (IsMove negative power) group (first :: rest)) :
    IsSettledAs group ("G1 X" ++ (FixedPoint.ofFloat 3 (rest.foldl (· + ·) first)).text ++ "S" ++
      String.ofList power)

/-! ## Lines as they are read -/

theorem isMove_iff {negative : Bool} {power : List Char} {line : String} {length : Float} :
    IsMove negative power line length
      ↔ PowerMove.read? line.toList = some ⟨negative, length, power⟩ :=
  PowerMove.read?_eq_some_iff.symm

theorem WrittenMove.IsOn.exists_read? {m : WrittenMove} {line : String} (h : m.IsOn line) :
    ∃ length, PowerMove.read? line.toList = some ⟨m.negative, length, m.power⟩ :=
  ⟨_, PowerMove.read?_eq_some_iff.mpr ⟨m, h, rfl, rfl, m.readFloat?_number⟩⟩

theorem read?_eq_none_iff {line : String} :
    PowerMove.read? line.toList = none ↔ ∀ m : WrittenMove, ¬ m.IsOn line := by
  constructor
  · intro hread m hline
    obtain ⟨length, hmove⟩ := hline.exists_read?
    rw [hread] at hmove
    cases hmove
  · intro h
    match hread : PowerMove.read? line.toList with
    | none => rfl
    | some move =>
      obtain ⟨m, hline, -⟩ := PowerMove.read?_eq_some_iff.mp hread
      exact absurd hline (h m)

/-- Lines are of the same run when the moves that are read from them are joined. -/
theorem sameRun_iff {a b : String} :
    SameRun a b ↔ ∃ m n : PowerMove, PowerMove.read? a.toList = some m ∧
      PowerMove.read? b.toList = some n ∧ m.joins n = true := by
  simp only [PowerMove.joins, Bool.and_eq_true, beq_iff_eq]
  constructor
  · rintro ⟨m, n, ha, hb, hjoins⟩
    obtain ⟨x, hx⟩ := ha.exists_read?
    obtain ⟨y, hy⟩ := hb.exists_read?
    exact ⟨_, _, hx, hy, hjoins⟩
  · rintro ⟨⟨negative, x, power⟩, ⟨negative', y, power'⟩, ha, hb, hjoins⟩
    obtain ⟨m, hm, rfl, rfl, -⟩ := PowerMove.read?_eq_some_iff.mp ha
    obtain ⟨n, hn, rfl, rfl, -⟩ := PowerMove.read?_eq_some_iff.mp hb
    exact ⟨m, n, hm, hn, hjoins⟩

theorem PowerMove.joins_iff {m n : PowerMove} :
    m.joins n = true ↔ m.negative = n.negative ∧ m.power = n.power := by
  rw [joins, Bool.and_eq_true, beq_iff_eq, beq_iff_eq]

theorem SameRun.trans {a b c : String} (hab : SameRun a b) (hbc : SameRun b c) : SameRun a c := by
  rw [sameRun_iff] at hab hbc ⊢
  obtain ⟨m, n, ha, hb, hmn⟩ := hab
  obtain ⟨n', k, hb', hc, hnk⟩ := hbc
  obtain rfl := Option.some.inj (hb.symm.trans hb')
  rw [PowerMove.joins_iff] at hmn hnk
  exact ⟨m, k, ha, hc, PowerMove.joins_iff.mpr ⟨hmn.1.trans hnk.1, hmn.2.trans hnk.2⟩⟩

instance : Trans SameRun SameRun SameRun := ⟨SameRun.trans⟩

/-! ## The only grouping -/

open Classical in
/-- To group lines is to split them wherever two neighbours are of different runs. -/
theorem isGrouping_iff {lines : List String} {groups : List (List String)} :
    IsGrouping lines groups ↔ lines.splitBy (fun a b ↦ decide (SameRun a b)) = groups := by
  have hborder {group next : List String} (hgroup : group ≠ []) (hnext : next ≠ []) :
      (∃ (ha : group ≠ []) (hb : next ≠ []),
        decide (SameRun (group.getLast ha) (next.head hb)) = false) ↔
      ∀ a ∈ group.getLast?, ∀ b ∈ next.head?, ¬ SameRun a b := by
    rw [List.getLast?_eq_some_getLast hgroup, List.head?_eq_some_head hnext]
    simp [hgroup, hnext]
  have hchain (h : ∀ group ∈ groups, group ≠ []) :
      (groups.IsChain fun group next ↦ ∃ (ha : group ≠ []) (hb : next ≠ []),
        decide (SameRun (group.getLast ha) (next.head hb)) = false) ↔
      groups.IsChain fun group next ↦ ∀ a ∈ group.getLast?, ∀ b ∈ next.head?, ¬ SameRun a b :=
    List.IsChain.iff_of_mem_imp fun group next hgroup hnext ↦
      hborder (h group hgroup) (h next hnext)
  have hnil : [] ∉ groups ↔ ∀ group ∈ groups, group ≠ [] :=
    ⟨fun h group hgroup hempty ↦ h (hempty ▸ hgroup), fun h hmem ↦ h [] hmem rfl⟩
  have hpairwise (group : List String) :
      (group.IsChain fun a b ↦ decide (SameRun a b) = true) ↔ group.Pairwise SameRun := by
    simp only [decide_eq_true_iff]
    exact List.isChain_iff_pairwise
  simp only [List.splitBy_eq_iff, hnil, hpairwise]
  constructor
  · intro h
    exact ⟨h.flatten.symm, h.ne_nil, h.pairwise, (hchain h.ne_nil).mpr h.isChain⟩
  · rintro ⟨hflatten, hne, hpairs, hborders⟩
    exact ⟨hflatten.symm, hne, hpairs, (hchain hne).mp hborders⟩

/-! ## The only line of a group -/

theorem rightUnique_isMove (negative : Bool) (power : List Char) :
    Relator.RightUnique (IsMove negative power) := by
  intro line x y hx hy
  rw [isMove_iff] at hx hy
  have hsame := hx.symm.trans hy
  simp only [Option.some.injEq, PowerMove.mk.injEq, true_and, and_true] at hsame
  exact hsame

theorem rightUnique_isSettledAs : Relator.RightUnique IsSettledAs := by
  rintro group out out' (hnone | hmoves) (hnone' | hmoves')
  · rfl
  · obtain ⟨m, hm, -⟩ := (List.forall₂_cons.mp hmoves').1
    exact absurd hm (hnone m)
  · obtain ⟨m, hm, -⟩ := (List.forall₂_cons.mp hmoves).1
    exact absurd hm (hnone' m)
  -- The first line of the group tells the sign and the power of both runs.
  · rcases hmoves with _ | ⟨hfirst, hrest⟩
    rcases hmoves' with _ | ⟨hfirst', hrest'⟩
    rw [isMove_iff] at hfirst hfirst'
    obtain ⟨rfl, rfl, rfl⟩ := PowerMove.mk.inj (Option.some.inj (hfirst.symm.trans hfirst'))
    rw [List.right_unique_forall₂' (rightUnique_isMove _ _) hrest hrest']

/-! ## What the loop does with a group -/

namespace Coalescing

variable {c : Coalescing} {negative : Bool} {power : List Char}

/-- The line is not taken into the run in front of it. -/
def Borders (c : Coalescing) (text : String) : Prop :=
  ∀ run ∈ c.run?, ∀ m, PowerMove.read? text.toList = some m → run.joins m = false

theorem line_of_borders {text : String} (h : c.Borders text) {length : Float}
    (hmove : IsMove negative power text length) :
    c.line text = ⟨c.flush.done, some ⟨negative, length, power⟩⟩ := by
  rw [isMove_iff] at hmove
  have hnone : c.run?.filter (·.joins ⟨negative, length, power⟩) = none := by
    rw [Option.filter_eq_none_iff]
    intro run hrun
    rw [h run hrun _ hmove]
    exact Bool.false_ne_true
  rw [line, hmove]
  dsimp only
  rw [move, hnone]

theorem foldl_line_run (done : List String) {lines : List String} {lengths : List Float}
    (h : List.Forall₂ (IsMove negative power) lines lengths) (first : Float) :
    lines.foldl line ⟨done, some ⟨negative, first, power⟩⟩
      = ⟨done, some ⟨negative, lengths.foldl (· + ·) first, power⟩⟩ := by
  induction h generalizing first with
  | nil => rfl
  | @cons text length lines lengths hmove _ ih =>
    have hjoins : PowerMove.joins ⟨negative, first, power⟩ ⟨negative, length, power⟩ = true :=
      PowerMove.joins_iff.mpr ⟨rfl, rfl⟩
    have hline : (⟨done, some ⟨negative, first, power⟩⟩ : Coalescing).line text
        = ⟨done, some ⟨negative, first + length, power⟩⟩ := by
      rw [line, isMove_iff.mp hmove]
      dsimp only
      rw [move, Option.filter_some, if_pos hjoins]
      rfl
    rw [List.foldl_cons, hline, ih, List.foldl_cons]

end Coalescing

theorem exists_forall₂_isMove {negative : Bool} {power : List Char} {text : String}
    {length : Float} (htext : IsMove negative power text length) {lines : List String}
    (h : ∀ line ∈ lines, SameRun text line) :
    ∃ lengths, List.Forall₂ (IsMove negative power) lines lengths := by
  induction lines with
  | nil => exact ⟨[], .nil⟩
  | cons line lines ih =>
    obtain ⟨hline, hlines⟩ := List.forall_mem_cons.mp h
    obtain ⟨m, n, htext', hread, hjoins⟩ := sameRun_iff.mp hline
    rw [isMove_iff.mp htext, Option.some.injEq] at htext'
    obtain ⟨rfl, rfl⟩ : negative = n.negative ∧ power = n.power := by
      rwa [← htext', PowerMove.joins_iff] at hjoins
    obtain ⟨lengths, hlengths⟩ := ih hlines
    exact ⟨n.length :: lengths, .cons (isMove_iff.mpr hread) hlengths⟩

namespace Coalescing

variable {c : Coalescing}

/-- A group gives one line, and the run that it may leave is its own. -/
theorem exists_isSettledAs {group : List String} (hne : group ≠ [])
    (hpairwise : group.Pairwise SameRun) (h : ∀ a ∈ group.head?, c.Borders a) :
    ∃ out, IsSettledAs group out ∧ (group.foldl line c).flush.done = out :: c.flush.done ∧
      ∀ run ∈ (group.foldl line c).run?, ∀ b ∈ group.getLast?,
        ∃ m, PowerMove.read? b.toList = some m ∧ run.joins m = true := by
  obtain ⟨text, rest, rfl⟩ := List.exists_cons_of_ne_nil hne
  obtain ⟨hsame, -⟩ := List.pairwise_cons.mp hpairwise
  match hread : PowerMove.read? text.toList with
  | none =>
    -- A line that is no move is in no run, so it is alone.
    have hrest : rest = [] := by
      match rest with
      | [] => rfl
      | next :: _ =>
        obtain ⟨m, n, hm, -⟩ := sameRun_iff.mp (hsame next List.mem_cons_self)
        rw [hread] at hm
        cases hm
    subst hrest
    have hline : [text].foldl line c = ⟨text :: c.flush.done, none⟩ := by
      rw [List.foldl_cons, List.foldl_nil, line, hread]
    rw [hline]
    exact ⟨text, .line (read?_eq_none_iff.mp hread), rfl, by rintro run ⟨⟩⟩
  | some ⟨negative, first, power⟩ =>
    have hfirst := isMove_iff.mpr hread
    obtain ⟨lengths, hlengths⟩ := exists_forall₂_isMove hfirst hsame
    have hfold : (text :: rest).foldl line c
        = ⟨c.flush.done, some ⟨negative, lengths.foldl (· + ·) first, power⟩⟩ := by
      rw [List.foldl_cons, line_of_borders (h text rfl) hfirst, foldl_line_run _ hlengths]
    rw [hfold]
    refine ⟨_, .run (.cons hfirst hlengths), rfl, ?_⟩
    rintro run hrun b hb
    obtain rfl := Option.some.inj hrun
    obtain ⟨length, -, hmove⟩ := exists_of_mem_forall₂ (.cons hfirst hlengths)
      (List.mem_of_mem_getLast? hb)
    exact ⟨_, isMove_iff.mp hmove, PowerMove.joins_iff.mpr ⟨rfl, rfl⟩⟩

theorem exists_forall₂_isSettledAs {groups : List (List String)}
    (hne : ∀ group ∈ groups, group ≠ [])
    (hpairwise : ∀ group ∈ groups, group.Pairwise SameRun)
    (hchain : groups.IsChain fun group next ↦ ∀ a ∈ group.getLast?, ∀ b ∈ next.head?, ¬ SameRun a b)
    (h : ∀ a ∈ groups.flatten.head?, c.Borders a) :
    ∃ outs, List.Forall₂ IsSettledAs groups outs ∧
      (groups.flatten.foldl line c).flush.done = outs.reverse ++ c.flush.done := by
  induction groups generalizing c with
  | nil => exact ⟨[], .nil, rfl⟩
  | cons group rest ih =>
    obtain ⟨hgroup, hrest⟩ := List.forall_mem_cons.mp hne
    obtain ⟨hpairs, hrestPairs⟩ := List.forall_mem_cons.mp hpairwise
    obtain ⟨out, hout, hdone, hrun⟩ := exists_isSettledAs hgroup hpairs fun a ha ↦ by
      refine h a ?_
      rwa [List.flatten_cons, List.head?_append_of_ne_nil _ hgroup]
    -- The run that is left is that of the last line, which the next group does not go on with.
    have hborder : ∀ b ∈ rest.flatten.head?, (group.foldl line c).Borders b := by
      intro b hb run hmem n hn
      match rest with
      | [] => cases hb
      | next :: later =>
        have hnext : next ≠ [] := hrest next List.mem_cons_self
        rw [List.flatten_cons, List.head?_append_of_ne_nil _ hnext] at hb
        obtain ⟨m, hm, hjoins⟩ := hrun run hmem _ (List.getLast?_eq_some_getLast hgroup)
        refine Bool.eq_false_of_not_eq_true fun hjoins' ↦ ?_
        rw [PowerMove.joins_iff] at hjoins hjoins'
        refine (List.isChain_cons_cons.mp hchain).1 _ (List.getLast?_eq_some_getLast hgroup) b hb ?_
        exact sameRun_iff.mpr ⟨m, n, hm, hn, PowerMove.joins_iff.mpr
          ⟨hjoins.1.symm.trans hjoins'.1, hjoins.2.symm.trans hjoins'.2⟩⟩
    obtain ⟨outs, houts, hdones⟩ := ih hrest hrestPairs hchain.of_cons hborder
    refine ⟨out :: outs, .cons hout houts, ?_⟩
    rw [List.flatten_cons, List.foldl_append, hdones, hdone, List.reverse_cons, List.append_assoc,
      List.singleton_append]

end Coalescing

/-! ## All groups -/

namespace IsGrouping

variable {lines : List String} {groups : List (List String)}

/-- The groups of the lines that go in give the lines that come out. -/
theorem forall₂_isSettledAs (h : IsGrouping lines groups) :
    List.Forall₂ IsSettledAs groups (coalesce lines) := by
  have hblank : ∀ a ∈ groups.flatten.head?, (⟨[], none⟩ : Coalescing).Borders a := by
    rintro a - run ⟨⟩
  obtain ⟨outs, houts, hdone⟩ :=
    Coalescing.exists_forall₂_isSettledAs h.ne_nil h.pairwise h.isChain hblank
  have hcoalesce : coalesce lines = outs := by
    rw [coalesce, ← h.flatten, hdone, List.reverse_append, List.reverse_reverse]
    rfl
  rwa [hcoalesce]

theorem eq_coalesce (h : IsGrouping lines groups) {outs : List String}
    (houts : List.Forall₂ IsSettledAs groups outs) : outs = coalesce lines :=
  List.right_unique_forall₂' rightUnique_isSettledAs houts h.forall₂_isSettledAs

end IsGrouping

theorem exists_isGrouping_iff (lines : List String) :
    ∃ groups, ∀ other, IsGrouping lines other ↔ other = groups := by
  classical
  refine ⟨lines.splitBy fun a b ↦ decide (SameRun a b), fun other ↦ ?_⟩
  rw [isGrouping_iff, eq_comm]

/-- **What coalescing does.** Every list of lines falls into groups in just one way, and the lines
that come out of coalescing are just those that the groups give, in order: a line that is no move
stays as it is, and a run becomes the one move along the sum of its lengths, added from left to
right and printed with three places, with the power of the run. -/
theorem coalesce_eq_iff (lines : List String) :
    ∃ groups, (∀ other, IsGrouping lines other ↔ other = groups) ∧
      ∀ outs, List.Forall₂ IsSettledAs groups outs ↔ outs = coalesce lines := by
  obtain ⟨groups, hgroups⟩ := exists_isGrouping_iff lines
  have hgrouping : IsGrouping lines groups := (hgroups groups).mpr rfl
  refine ⟨groups, hgroups, fun outs ↦ ⟨hgrouping.eq_coalesce, ?_⟩⟩
  rintro rfl
  exact hgrouping.forall₂_isSettledAs

/-- A run of two moves, a move against it, and one behind a remark. -/
example : coalesce ["G1 X1.000S500", "G1 X0.5S500\n", "G1 X-1.0S500", "; end", "G1 X-0.0004S500"]
    = ["G1 X1.500S500", "G1 X-1.000S500", "; end", "G1 X-0.000S500"] := by decide +kernel

/-! ## Coalescing twice

What comes out of coalescing is not changed when it is coalesced again. Every line that comes out is
a group by itself: where two of them were moves of one run, so would have been the groups that they
come from. This asks that a line keeps the sign and the power of its run, whatever the lengths add
up to, or is no move at all. And the length of a move is printed as it was when it is read again.
-/

section

variable {negative : Bool} {power : List Char}

/-! ### Sums of lengths -/

theorem IsMove.hasSign {line : String} {length : Float} (h : IsMove negative power line length) :
    HasSign negative length := by
  obtain ⟨m, -, rfl, -, hlength⟩ := h
  rw [m.readFloat?_number, Option.some.injEq] at hlength
  rw [← hlength]
  have hdecimal := hasSign_decimalFloat
    (digitsValue ((m.whole ++ m.fraction).map plainChar)) (-m.fraction.length)
  cases m.negative
  · exact hdecimal
  · exact hdecimal.neg

theorem IsMove.isDigits_power {line : String} {length : Float}
    (h : IsMove negative power line length) : IsDigits power := by
  obtain ⟨m, -, -, rfl, -⟩ := h
  exact m.isDigits_power

theorem hasSign_foldl_add {group : List String} {first : Float} {rest : List Float}
    (h : List.Forall₂ (IsMove negative power) group (first :: rest)) :
    HasSign negative (rest.foldl (· + ·) first) := by
  have hsign : ∀ x ∈ first :: rest, HasSign negative x := by
    intro x hx
    obtain ⟨line, -, hmove⟩ := exists_of_mem_forall₂ h.flip hx
    exact IsMove.hasSign hmove
  obtain ⟨hfirst, hrest⟩ := List.forall_mem_cons.mp hsign
  exact hfirst.foldl_add hrest

/-- What is printed of a finite length is read as a length that is printed alike. -/
theorem text_decimalReading {length : Float} {units : ℕ}
    (h : FixedPoint.ofFloat 3 length = .finite negative units) (power : List Char) :
    PowerMove.text ⟨negative, decimalReading negative units, power⟩
      = PowerMove.text ⟨negative, length, power⟩ := by
  have hread : readFloat? (FixedPoint.ofFloat 3 length).text.toList
      = some (decimalReading negative units) := by
    rw [h, FixedPoint.readFloat?_text (by norm_num), decimalReading]
    rfl
  have hfinite : (Exact.ofFloat length).isFinite = true :=
    isFinite_iff_denotes.mpr (FixedPoint.exists_denotes_of_isFinite (by rw [h]; rfl))
  have hprint := FixedPoint.ofFloat_eq_of_readFloat? (by norm_num) (by norm_num) hfinite hread
  rw [PowerMove.text, PowerMove.text, hprint]

/-! ### Lines that come out -/

theorem read?_infinite (negative : Bool) (power : List Char) :
    PowerMove.read? ("G1 X" ++ (FixedPoint.infinite negative : FixedPoint 3).text ++ "S" ++
      String.ofList power).toList = none := by
  simp only [String.toList_append, List.append_assoc]
  cases negative <;> rfl

/-- A line that comes out is no move, or it is a move with the sign and the power of its group whose
length is printed as it stands. -/
theorem IsSettledAs.read?_eq {group : List String} {out : String} (h : IsSettledAs group out) :
    PowerMove.read? out.toList = none ∨
    ∃ m : PowerMove, PowerMove.read? out.toList = some m ∧ m.text = out ∧
      ∀ a ∈ group, ∃ length, IsMove m.negative m.power a length := by
  match h with
  | .line hnone => exact .inl (read?_eq_none_iff.mpr hnone)
  | @IsSettledAs.run _ negative power first rest hmoves =>
    rcases (hasSign_foldl_add hmoves).ofFloat 3 with ⟨units, hfinite⟩ | hinfinite
    · right
      have hpower : IsDigits power := by
        cases hmoves with
        | cons hmove _ => exact hmove.isDigits_power
      have htext := text_decimalReading hfinite power
      have hread := PowerMove.read?_finite negative units hpower
      rw [← hfinite] at hread
      refine ⟨_, hread, htext, fun a ha ↦ ?_⟩
      obtain ⟨length, -, hmove⟩ := exists_of_mem_forall₂ hmoves ha
      exact ⟨length, hmove⟩
    · left
      rw [hinfinite]
      exact read?_infinite negative power

theorem IsSettledAs.again {group : List String} {out : String} (h : IsSettledAs group out) :
    IsSettledAs [out] out := by
  rcases h.read?_eq with hnone | ⟨⟨negative, length, power⟩, hread, htext, -⟩
  · exact .line (read?_eq_none_iff.mp hnone)
  · have hmoves : List.Forall₂ (IsMove negative power) [out] [length] :=
      .cons (isMove_iff.mpr hread) .nil
    have hrun : IsSettledAs [out] (PowerMove.text ⟨negative, length, power⟩) :=
      @IsSettledAs.run [out] negative power length [] hmoves
    rwa [htext] at hrun

theorem IsSettledAs.sameRun {group group' : List String} {out out' : String}
    (h : IsSettledAs group out) (h' : IsSettledAs group' out') (hsame : SameRun out out')
    {a b : String} (ha : a ∈ group) (hb : b ∈ group') : SameRun a b := by
  obtain ⟨m, n, hm, hn, hjoins⟩ := sameRun_iff.mp hsame
  -- Both lines are moves, so each has the sign and the power of the lines of its group.
  rcases h.read?_eq with hnone | ⟨m', hm', -, hgroup⟩
  · rw [hnone] at hm
    cases hm
  rcases h'.read?_eq with hnone | ⟨n', hn', -, hgroup'⟩
  · rw [hnone] at hn
    cases hn
  obtain rfl := Option.some.inj (hm.symm.trans hm')
  obtain rfl := Option.some.inj (hn.symm.trans hn')
  obtain ⟨x, hx⟩ := hgroup a ha
  obtain ⟨y, hy⟩ := hgroup' b hb
  exact sameRun_iff.mpr ⟨_, _, isMove_iff.mp hx, isMove_iff.mp hy,
    PowerMove.joins_iff.mpr (PowerMove.joins_iff.mp hjoins)⟩

/-! ### The groups of what comes out -/

/-- Where no two neighbours are of one run every line is a group. -/
theorem isGrouping_map_singleton {lines : List String}
    (h : lines.IsChain fun a b ↦ ¬ SameRun a b) : IsGrouping lines (lines.map ([·])) := by
  refine ⟨?_, ?_, ?_, ?_⟩
  · rw [← List.flatMap_def]
    exact List.flatMap_singleton' lines
  · exact List.forall_mem_map.mpr fun line _ ↦ List.cons_ne_nil line []
  · exact List.forall_mem_map.mpr fun line _ ↦ List.pairwise_singleton SameRun line
  · rw [List.isChain_map]
    refine h.imp fun a b hab ↦ ?_
    rintro _ ⟨⟩ _ ⟨⟩
    exact hab

/-- Groups that cannot be joined give lines that cannot be joined. -/
theorem isChain_not_sameRun {groups : List (List String)} {outs : List String}
    (h : List.Forall₂ IsSettledAs groups outs) (hne : ∀ group ∈ groups, group ≠ [])
    (hchain : groups.IsChain fun group next ↦
      ∀ a ∈ group.getLast?, ∀ b ∈ next.head?, ¬ SameRun a b) :
    outs.IsChain fun a b ↦ ¬ SameRun a b := by
  induction h with
  | nil => exact .nil
  | @cons group out groups outs hout hrest ih =>
    obtain ⟨hgroup, hgroups⟩ := List.forall_mem_cons.mp hne
    match hrest with
    | .nil => exact .singleton out
    | .cons (a := next) (b := out') hout' hlater =>
      rw [List.isChain_cons_cons] at hchain ⊢
      refine ⟨fun hsame ↦ ?_, ih hgroups hchain.2⟩
      have hnext := hgroups next List.mem_cons_self
      exact hchain.1 _ (List.getLast?_eq_some_getLast hgroup) _ (List.head?_eq_some_head hnext)
        (hout.sameRun hout' hsame (List.getLast_mem hgroup) (List.head_mem hnext))

/-- **Coalescing is idempotent.** What comes out of coalescing any lines stays as it is when it is
coalesced again. -/
theorem coalesce_coalesce (lines : List String) : coalesce (coalesce lines) = coalesce lines := by
  obtain ⟨groups, hgroups⟩ := exists_isGrouping_iff lines
  have hgrouping : IsGrouping lines groups := (hgroups groups).mpr rfl
  have hsettled := hgrouping.forall₂_isSettledAs
  have hchain := isChain_not_sameRun hsettled hgrouping.ne_nil hgrouping.isChain
  have hagain : List.Forall₂ IsSettledAs ((coalesce lines).map ([·])) (coalesce lines) := by
    rw [List.forall₂_map_left_iff, List.forall₂_same]
    intro out hout
    obtain ⟨group, -, hgroup⟩ := exists_of_mem_forall₂ hsettled.flip hout
    exact hgroup.again
  exact ((isGrouping_map_singleton hchain).eq_coalesce hagain).symm

end

end Engraving
