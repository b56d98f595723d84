import Engraving.CommandLine.Arguments
import Engraving.Proofs.Except
import Mathlib.Data.List.TakeWhile
import Mathlib.Tactic.SplitIfs

/-!
# What a command line says

The words of a command line are read as phrases: options with values, options without, and operands.
`Says` is this reading, a rule for every kind of phrase; words have one reading at most. A command
line is taken up word by word, with an option in the middle that waits for its value. What comes of
it is what its phrases say, one after the other.

Of an option that is given several times the last value counts. So every setting is told by the last
value of its option, or by nothing.
-/

namespace Engraving.CommandLine

/-! ## Reading words -/

/-- What a part of a command line says. -/
inductive Phrase where
  | value (name text : String)
  | switch (name : String)
  | operand (text : String)
  deriving DecidableEq, Repr

/-- The names of the options of a command, and whether they take values. -/
abbrev Vocabulary := List (String × Bool)

namespace Vocabulary

/-- All names; every command has the option for help. -/
def names (v : Vocabulary) : List String := "--help" :: v.map Prod.fst

/-- A text names an option: it is the name, or only this name begins so. -/
structure Names (v : Vocabulary) (start name : String) : Prop where
  hyphens : ['-', '-'] <+: start.toList
  plain : '=' ∉ start.toList
  only : start = name ∧ name ∈ v.names ∨
    start ∉ v.names ∧ ∀ other, other ∈ v.names ∧ start.toList <+: other.toList ↔ other = name

/-- A word stands for itself. It may begin with a hyphen if it is a lone hyphen, a negative number,
or has a space in it and could not be an option even so. -/
def IsArgument (v : Vocabulary) (word : String) : Prop :=
  match word.toList with
  | '-' :: '-' :: rest =>
    ' ' ∈ rest ∧ ∀ name ∈ v.names, ¬(word.toList.takeWhile (· ≠ '=')) <+: name.toList
  | '-' :: 'h' :: _ => False
  | '-' :: c :: rest => isUnsignedNumber (c :: rest) = true ∨ ' ' ∈ c :: rest
  | _ => True

end Vocabulary

/-- Words are read as phrases. -/
inductive Says (v : Vocabulary) : List String → List Phrase → Prop
  | nil : Says v [] []
  /-- Behind two hyphens all words are operands. -/
  | separator (words : List String) : Says v ("--" :: words) (words.map .operand)
  | operand {word : String} {words : List String} {phrases : List Phrase}
    (argument : v.IsArgument word) (more : Says v words phrases) :
    Says v (word :: words) (.operand word :: phrases)
  | switch {start name : String} {words : List String} {phrases : List Phrase}
    (names : v.Names start name) (mem : (name, false) ∈ v) (proper : start ≠ "--")
    (more : Says v words phrases) : Says v (start :: words) (.switch name :: phrases)
  /-- The value is the next word. -/
  | spaced {start name text : String} {words : List String} {phrases : List Phrase}
    (names : v.Names start name) (mem : (name, true) ∈ v) (proper : start ≠ "--")
    (argument : v.IsArgument text) (more : Says v words phrases) :
    Says v (start :: text :: words) (.value name text :: phrases)
  /-- The value is attached by an equals sign. -/
  | attached {word start name text : String} {words : List String} {phrases : List Phrase}
    (form : word = start ++ "=" ++ text) (names : v.Names start name) (mem : (name, true) ∈ v)
    (more : Says v words phrases) : Says v (word :: words) (.value name text :: phrases)

/-! ## One reading -/

namespace Vocabulary

variable {v : Vocabulary} {word start name : String}

theorem Names.isPrefix (h : v.Names start name) :
    name ∈ v.names ∧ start.toList <+: name.toList := by
  rcases h.only with ⟨rfl, hmem⟩ | ⟨-, honly⟩
  · exact ⟨hmem, List.prefix_rfl⟩
  · exact (honly name).mpr rfl

theorem Names.unique {other : String} (h : v.Names start name) (h' : v.Names start other) :
    name = other := by
  rcases h.only with ⟨rfl, hmem⟩ | ⟨hmem, honly⟩
  · rcases h'.only with ⟨rfl, -⟩ | ⟨hmem', -⟩
    · rfl
    · exact absurd hmem hmem'
  · rcases h'.only with ⟨rfl, hmem'⟩ | ⟨-, honly'⟩
    · exact absurd hmem' hmem
    · exact (honly' name).mp ((honly name).mpr rfl)

theorem not_isArgument_separator : ¬v.IsArgument "--" := by
  rintro ⟨h, -⟩
  cases h

/-- A word that begins with the name of an option does not stand for itself. -/
theorem Names.not_isArgument (h : v.Names start name)
    (hword : word.toList.takeWhile (· ≠ '=') = start.toList) : ¬v.IsArgument word := by
  obtain ⟨rest, hstart⟩ := h.hyphens
  obtain ⟨tail, htail⟩ := List.takeWhile_prefix (l := word.toList) (· ≠ '=')
  have hchars : word.toList = '-' :: '-' :: (rest ++ tail) := by
    rw [← htail, hword, ← hstart]
    rfl
  intro hargument
  rw [IsArgument, hword, hchars] at hargument
  exact hargument.2 name h.isPrefix.1 h.isPrefix.2

theorem Names.takeWhile_self (h : v.Names start name) :
    start.toList.takeWhile (· ≠ '=') = start.toList :=
  List.takeWhile_eq_self_iff.mpr fun _ hc ↦ decide_eq_true fun heq ↦ h.plain (heq ▸ hc)

theorem Names.takeWhile_attached (h : v.Names start name) (text : String) :
    (start ++ "=" ++ text).toList.takeWhile (· ≠ '=') = start.toList := by
  have hplain : ∀ c ∈ start.toList, decide (c ≠ '=') = true :=
    fun c hc ↦ decide_eq_true fun heq ↦ h.plain (heq ▸ hc)
  rw [String.toList_append, String.toList_append, List.append_assoc,
    List.takeWhile_append_of_pos hplain]
  simp

theorem Names.start_unique {start' name' text text' : String} (h : v.Names start name)
    (h' : v.Names start' name') (heq : start ++ "=" ++ text = start' ++ "=" ++ text') :
    start = start' ∧ text = text' := by
  have hstart : start = start' := by
    rw [← String.toList_inj, ← h.takeWhile_attached text, heq, h'.takeWhile_attached text']
  subst hstart
  rw [← String.toList_inj] at heq
  simp only [String.toList_append] at heq
  exact ⟨rfl, String.toList_inj.mp (List.append_cancel_left heq)⟩

theorem mem_of_form {text : String} (h : word = start ++ "=" ++ text) : '=' ∈ word.toList := by
  simp [h]

/-- An option takes a value, or it does not. -/
def IsProper (v : Vocabulary) : Prop := ∀ name, (name, true) ∈ v → (name, false) ∉ v

end Vocabulary

namespace Says

variable {v : Vocabulary} {word start name text : String} {words : List String}
  {phrases phrases' : List Phrase}

/-! The first word settles by which rule words are read. -/

theorem eq_of_separator (h : Says v ("--" :: words) phrases) : phrases = words.map .operand := by
  generalize hword : "--" = word at h
  cases h with
  | separator => rfl
  | operand argument => exact absurd (hword ▸ argument) Vocabulary.not_isArgument_separator
  | switch _ _ proper => exact absurd hword.symm proper
  | spaced _ _ proper => exact absurd hword.symm proper
  | attached form => exact absurd (Vocabulary.mem_of_form (hword ▸ form)) (by decide)

theorem exists_of_isArgument (hword : v.IsArgument word) (h : Says v (word :: words) phrases) :
    ∃ later, phrases = .operand word :: later ∧ Says v words later := by
  cases h with
  | separator => exact absurd hword Vocabulary.not_isArgument_separator
  | operand _ more => exact ⟨_, rfl, more⟩
  | switch names => exact absurd hword (names.not_isArgument names.takeWhile_self)
  | spaced names => exact absurd hword (names.not_isArgument names.takeWhile_self)
  | attached form names =>
    exact absurd hword (names.not_isArgument (form ▸ names.takeWhile_attached _))

theorem exists_of_switch (hv : v.IsProper) (hnames : v.Names start name) (hmem : (name, false) ∈ v)
    (hproper : start ≠ "--") (h : Says v (start :: words) phrases) :
    ∃ later, phrases = .switch name :: later ∧ Says v words later := by
  cases h with
  | separator => exact absurd rfl hproper
  | operand argument => exact absurd argument (hnames.not_isArgument hnames.takeWhile_self)
  | switch names _ _ more => exact ⟨_, by rw [hnames.unique names], more⟩
  | spaced names mem => exact absurd hmem (hnames.unique names ▸ hv _ mem)
  | attached form => exact absurd (Vocabulary.mem_of_form form) hnames.plain

theorem exists_of_spaced (hv : v.IsProper) (hnames : v.Names start name) (hmem : (name, true) ∈ v)
    (hproper : start ≠ "--") (h : Says v (start :: text :: words) phrases) :
    ∃ later, phrases = .value name text :: later ∧ Says v words later := by
  cases h with
  | separator => exact absurd rfl hproper
  | operand argument => exact absurd argument (hnames.not_isArgument hnames.takeWhile_self)
  | switch names mem => exact absurd mem (hnames.unique names ▸ hv _ hmem)
  | spaced names _ _ _ more => exact ⟨_, by rw [hnames.unique names], more⟩
  | attached form => exact absurd (Vocabulary.mem_of_form form) hnames.plain

theorem exists_of_attached (hnames : v.Names start name) (hform : word = start ++ "=" ++ text)
    (h : Says v (word :: words) phrases) :
    ∃ later, phrases = .value name text :: later ∧ Says v words later := by
  cases h with
  | separator => exact absurd (Vocabulary.mem_of_form hform) (by decide)
  | operand argument =>
    exact absurd argument (hnames.not_isArgument (hform ▸ hnames.takeWhile_attached _))
  | switch names => exact absurd (Vocabulary.mem_of_form hform) names.plain
  | spaced names => exact absurd (Vocabulary.mem_of_form hform) names.plain
  | attached form names _ more =>
    obtain ⟨rfl, rfl⟩ := hnames.start_unique names (hform ▸ form)
    exact ⟨_, by rw [hnames.unique names], more⟩

/-- What words say does not depend on what comes behind them, unless two hyphens do away with
options. -/
theorem exists_of_append {more : List String} (hv : v.IsProper) (h : Says v words phrases)
    (hmore : "--" ∈ words → more = []) (h' : Says v (words ++ more) phrases') :
    ∃ later, phrases' = phrases ++ later ∧ Says v more later := by
  induction h generalizing phrases' with
  | nil => exact ⟨phrases', rfl, h'⟩
  | separator words =>
    obtain rfl := hmore List.mem_cons_self
    rw [List.append_nil] at h'
    exact ⟨[], by rw [h'.eq_of_separator, List.append_nil], .nil⟩
  | operand argument _ ih =>
    obtain ⟨_, rfl, hrest⟩ := h'.exists_of_isArgument argument
    obtain ⟨later, rfl, hlater⟩ := ih (fun h ↦ hmore (List.mem_cons_of_mem _ h)) hrest
    exact ⟨later, rfl, hlater⟩
  | switch names mem proper _ ih =>
    obtain ⟨_, rfl, hrest⟩ := h'.exists_of_switch hv names mem proper
    obtain ⟨later, rfl, hlater⟩ := ih (fun h ↦ hmore (List.mem_cons_of_mem _ h)) hrest
    exact ⟨later, rfl, hlater⟩
  | spaced names mem proper _ _ ih =>
    obtain ⟨_, rfl, hrest⟩ := h'.exists_of_spaced hv names mem proper
    obtain ⟨later, rfl, hlater⟩ :=
      ih (fun h ↦ hmore (List.mem_cons_of_mem _ (List.mem_cons_of_mem _ h))) hrest
    exact ⟨later, rfl, hlater⟩
  | attached form names _ _ ih =>
    obtain ⟨_, rfl, hrest⟩ := h'.exists_of_attached names form
    obtain ⟨later, rfl, hlater⟩ := ih (fun h ↦ hmore (List.mem_cons_of_mem _ h)) hrest
    exact ⟨later, rfl, hlater⟩

/-- **Words have one reading.** -/
theorem unique (hv : v.IsProper) (h : Says v words phrases) (h' : Says v words phrases') :
    phrases = phrases' := by
  rw [← List.append_nil words] at h'
  obtain ⟨later, rfl, hlater⟩ := h.exists_of_append hv (fun _ ↦ rfl) h'
  cases hlater
  rw [List.append_nil]

end Says

/-! ## What phrases say -/

def operands : List Phrase → List String
  | [] => []
  | .operand text :: phrases => text :: operands phrases
  | _ :: phrases => operands phrases

/-- The last value that an option is given. -/
def lastValue? (name : String) : List Phrase → Option String
  | [] => none
  | .value other text :: phrases =>
    (lastValue? name phrases).or (if other = name then some text else none)
  | _ :: phrases => lastValue? name phrases

/-- A setting is what the last value of an option is read as, or is settled otherwise. -/
def IsSaid {α : Type} (phrases : List Phrase) (name : String) (read : String → Option α)
    (otherwise : α → Prop) (a : α) : Prop :=
  match lastValue? name phrases with
  | some text => read text = some a
  | none => otherwise a

/-! ## Command lines for compiling -/

def generalVocabulary : Vocabulary :=
  [("--config", true), ("--laser-profile", true), ("--log-level", true)]

def compileVocabulary : Vocabulary :=
  [("--output", true), ("--width-mm", true), ("--height-mm", true), ("--start-x", true),
    ("--start-y", true), ("--max-power", true), ("--feed-rate", true), ("--invert", false),
    ("--optimize", false)]

/-- A command line for compiling consists of what is said for all commands, the name of the command,
and what is said about compiling. -/
inductive SaysCompile (words : List String) (general own : List Phrase) : Prop
  | intro {before behind : List String} (split : words = before ++ "compile" :: behind)
    (said_before : Says generalVocabulary before general) (unseparated : "--" ∉ before)
    (leading : operands general = []) (said_behind : Says compileVocabulary behind own)

theorem isProper_generalVocabulary : generalVocabulary.IsProper := by
  simp [Vocabulary.IsProper, generalVocabulary]

theorem isProper_compileVocabulary : compileVocabulary.IsProper := by
  simp +contextual [Vocabulary.IsProper, compileVocabulary]

theorem operands_append (phrases later : List Phrase) :
    operands (phrases ++ later) = operands phrases ++ operands later := by
  induction phrases with
  | nil => rfl
  | cons phrase phrases ih =>
    cases phrase with
    | operand text => rw [List.cons_append, operands, operands, ih, List.cons_append]
    | _ => exact ih

namespace SaysCompile

variable {words before behind more : List String} {general own general' own' : List Phrase}

/-- The name of the command would be an operand of what is said before it. -/
theorem operands_ne_nil {phrases : List Phrase} (hgeneral : Says generalVocabulary before general)
    (hseparator : "--" ∉ before)
    (h : Says generalVocabulary (before ++ "compile" :: more) phrases) :
    operands phrases ≠ [] := by
  obtain ⟨later, rfl, hlater⟩ := hgeneral.exists_of_append isProper_generalVocabulary
    (fun h ↦ absurd h hseparator) h
  rw [operands_append]
  have hname : generalVocabulary.IsArgument "compile" := trivial
  obtain ⟨rest, rfl, -⟩ := hlater.exists_of_isArgument hname
  exact List.append_ne_nil_of_right_ne_nil _ (List.cons_ne_nil _ _)

/-- **Command lines have one reading.** -/
theorem unique (h : SaysCompile words general own) (h' : SaysCompile words general' own') :
    general = general' ∧ own = own' := by
  obtain ⟨hsplit, hgeneral, hseparator, hleading, hown⟩ := h
  obtain ⟨hsplit', hgeneral', hseparator', hleading', hown'⟩ := h'
  rcases List.append_eq_append_iff.mp (hsplit.symm.trans hsplit') with
    ⟨_ | ⟨word, more⟩, rfl, hmore⟩ | ⟨_ | ⟨word, more⟩, rfl, hmore⟩
  · rw [List.append_nil] at hgeneral'
    rw [List.nil_append, List.cons.injEq] at hmore
    exact ⟨hgeneral.unique isProper_generalVocabulary hgeneral',
      hown.unique isProper_compileVocabulary (hmore.2 ▸ hown')⟩
  · rw [List.cons_append, List.cons.injEq] at hmore
    exact absurd hleading' (operands_ne_nil hgeneral hseparator (hmore.1 ▸ hgeneral'))
  · rw [List.append_nil] at hgeneral
    rw [List.nil_append, List.cons.injEq] at hmore
    exact ⟨hgeneral.unique isProper_generalVocabulary hgeneral',
      hown.unique isProper_compileVocabulary (hmore.2 ▸ hown')⟩
  · rw [List.cons_append, List.cons.injEq] at hmore
    exact absurd hleading (operands_ne_nil hgeneral' hseparator' (hmore.1 ▸ hgeneral))

end SaysCompile

end Engraving.CommandLine
