import Engraving.Proofs.CommandLine.Wording

/-!
# Taking up what a command line says

Words are classified first, and then taken up one by one. Whatever the options of a command are: if
this comes to an end without a surplus word, the words have a reading, and the settings are those
that its phrases make, one after the other.
-/

namespace Engraving.CommandLine

variable {σ : Type} {options : Options σ} {word : String} {words : List String}

/-! ## Effects of phrases -/

def Effect.isValue : Effect σ → Bool
  | .value _ => true
  | _ => false

/-- The names of some options, and whether they take values. -/
def Options.vocabulary (options : Options σ) : Vocabulary :=
  options.map fun option ↦ (option.1, option.2.isValue)

theorem Options.names_vocabulary (options : Options σ) :
    options.vocabulary.names = options.withHelp.map Prod.fst := by
  rw [Vocabulary.names, vocabulary, List.map_map]
  rfl

theorem mem_vocabulary {name : String} {effect : Effect σ} (h : (name, effect) ∈ options) :
    (name, effect.isValue) ∈ options.vocabulary :=
  List.mem_map_of_mem (f := fun option : String × Effect σ ↦ (option.1, option.2.isValue)) h

/-- What phrases make of settings. -/
inductive Applies (options : Options σ) : List Phrase → σ → σ → Prop
  | nil {s : σ} : Applies options [] s s
  | operand {text : String} {phrases : List Phrase} {s t : σ} (more : Applies options phrases s t) :
    Applies options (.operand text :: phrases) s t
  | switch {name : String} {put : σ → σ} {phrases : List Phrase} {s t : σ}
    (mem : (name, .switch put) ∈ options) (more : Applies options phrases (put s) t) :
    Applies options (.switch name :: phrases) s t
  | value {name text : String} {put? : String → σ → Option σ} {phrases : List Phrase} {s r t : σ}
    (mem : (name, .value put?) ∈ options) (put : put? text s = some r)
    (more : Applies options phrases r t) : Applies options (.value name text :: phrases) s t

theorem applies_operands (options : Options σ) (words : List String) (s : σ) :
    Applies options (words.map .operand) s s := by
  induction words with
  | nil => exact .nil
  | cons word words ih => exact .operand ih

theorem operands_map_operand (words : List String) : operands (words.map .operand) = words := by
  induction words with
  | nil => rfl
  | cons word words ih => exact congrArg _ ih

/-! ## Classification -/

/-- What a word before two hyphens is. -/
inductive IsItem (options : Options σ) (word : String) : Item σ → Prop
  | argument (argument : options.vocabulary.IsArgument word) : IsItem options word .argument
  | unknown : IsItem options word .unknown
  | help (attached? : Option String) : IsItem options word (.option .help attached?)
  | bare {name : String} {effect : Effect σ} (names : options.vocabulary.Names word name)
    (mem : (name, effect) ∈ options) : IsItem options word (.option effect none)
  | attached {start name text : String} {effect : Effect σ}
    (names : options.vocabulary.Names start name) (mem : (name, effect) ∈ options)
    (form : word = start ++ "=" ++ text) : IsItem options word (.option effect (some text))

theorem IsItem.ne_separator {item : Item σ} (h : IsItem options word item) : item ≠ .separator := by
  rintro rfl
  cases h

/-- A word consists of what is before the first equals sign and of what is attached by it. -/
theorem attachedText?_cases (word : String) :
    (attachedText? word.toList = none ∧ String.ofList (word.toList.takeWhile (· ≠ '=')) = word) ∨
      ∃ text, attachedText? word.toList = some text ∧
        word = String.ofList (word.toList.takeWhile (· ≠ '=')) ++ "=" ++ text := by
  rw [attachedText?]
  by_cases h : '=' ∈ word.toList
  · obtain ⟨start, text, hsplit, hplain⟩ := List.eq_append_cons_of_mem h
    have hstart : ∀ c ∈ start, decide (c ≠ '=') = true :=
      fun c hc ↦ decide_eq_true fun heq ↦ hplain (heq ▸ hc)
    refine Or.inr ⟨String.ofList text, ?_, ?_⟩
    · rw [if_pos (List.contains_iff_mem.mpr h), hsplit, List.dropWhile_append_of_pos hstart]
      simp
    · rw [← String.toList_inj, hsplit, List.takeWhile_append_of_pos hstart]
      simp
  · have hword : ∀ c ∈ word.toList, decide (c ≠ '=') = true :=
      fun c hc ↦ decide_eq_true fun heq ↦ h (heq ▸ hc)
    refine Or.inl ⟨if_neg (mt List.contains_iff_mem.mp h), ?_⟩
    rw [List.takeWhile_eq_self_iff.mpr hword, String.ofList_toList]

/-- All words but two hyphens are settled by what they begin with. -/
theorem isItem_of_names {name : String} {effect : Effect σ}
    (hnames : options.vocabulary.Names (String.ofList (word.toList.takeWhile (· ≠ '='))) name)
    (hmem : (name, effect) ∈ options.withHelp) :
    IsItem options word (.option effect (attachedText? word.toList)) := by
  rcases List.mem_cons.mp hmem with heq | hmem
  · cases heq
    exact .help _
  rcases attachedText?_cases word with ⟨hattached, hword⟩ | ⟨text, hattached, hword⟩
  · rw [hattached]
    exact .bare (hword ▸ hnames) hmem
  · rw [hattached]
    exact .attached hnames hmem hword

theorem isUnsignedNumber_hyphen (rest : List Char) : isUnsignedNumber ('-' :: rest) = false := by
  have hdrop (tail : List Char) : ('-' :: tail).dropWhile isDigit = '-' :: tail := rfl
  rcases rest with _ | ⟨c, rest⟩
  · rfl
  · rw [isUnsignedNumber]
    split_ifs
    · rw [List.dropLast_cons_cons, hdrop]
      rfl
    · rw [hdrop]
      rfl

/-- A word that begins like no option is unknown unless it stands for itself. -/
theorem isItem_nonOption (hspace : isUnsignedNumber (word.toList.drop 1) = true ∨
    ' ' ∈ word.toList → options.vocabulary.IsArgument word) :
    IsItem options word (nonOption word.toList) := by
  rw [nonOption]
  split_ifs with h
  · rw [Bool.or_eq_true, List.contains_iff_mem] at h
    exact .argument (hspace h)
  · exact .unknown

theorem fst_mem_names {option : String × Effect σ} (h : option ∈ options.withHelp) :
    option.1 ∈ options.vocabulary.names := by
  rw [Options.names_vocabulary]
  exact List.mem_map_of_mem h

/-- A beginning that is no name itself is short for a name when only one name begins so. -/
theorem names_of_filter {start name : String} {effect : Effect σ}
    (hstart : ['-', '-'] <+: start.toList) (hplain : '=' ∉ start.toList)
    (hlookup : options.withHelp.lookup start = none)
    (hfilter : options.withHelp.filter (start.toList.isPrefixOf ·.1.toList) = [(name, effect)]) :
    options.vocabulary.Names start name ∧ (name, effect) ∈ options.withHelp := by
  have hmem_filter (option : String × Effect σ) : option ∈ [(name, effect)] ↔
      option ∈ options.withHelp ∧ start.toList <+: option.1.toList := by
    rw [← hfilter, List.mem_filter, List.isPrefixOf_iff_prefix]
  obtain ⟨hmem, hprefix⟩ := (hmem_filter (name, effect)).mp List.mem_cons_self
  refine ⟨⟨hstart, hplain, Or.inr ⟨fun hname ↦ ?_, fun other ↦ ⟨?_, ?_⟩⟩⟩, hmem⟩
  · rw [Options.names_vocabulary] at hname
    obtain ⟨option, hoption, rfl⟩ := List.mem_map.mp hname
    simpa using List.lookup_eq_none_iff.mp hlookup option hoption
  · rintro ⟨hname, hother⟩
    rw [Options.names_vocabulary] at hname
    obtain ⟨option, hoption, rfl⟩ := List.mem_map.mp hname
    have hsingle := (hmem_filter option).mpr ⟨hoption, hother⟩
    exact congrArg Prod.fst (List.mem_singleton.mp hsingle)
  · rintro rfl
    exact ⟨fst_mem_names hmem, hprefix⟩

/-- A word that begins with two hyphens is an argument when it holds a blank and no name begins like
it. -/
theorem isItem_of_filter_eq_nil {rest : List Char} (hword : word.toList = '-' :: '-' :: rest)
    (hfilter : options.withHelp.filter
      ((word.toList.takeWhile (· ≠ '=')).isPrefixOf ·.1.toList) = []) :
    IsItem options word (nonOption word.toList) := by
  refine isItem_nonOption fun hspace ↦ ?_
  rw [hword, List.drop_one, List.tail_cons, isUnsignedNumber_hyphen] at hspace
  rw [Vocabulary.IsArgument, hword]
  rw [hword] at hfilter
  refine ⟨by simpa using hspace, fun name hname ↦ ?_⟩
  rw [Options.names_vocabulary] at hname
  obtain ⟨option, hoption, rfl⟩ := List.mem_map.mp hname
  exact mt List.isPrefixOf_iff_prefix.mpr (List.filter_eq_nil_iff.mp hfilter option hoption)

theorem isItem_of_longItem? {item : Item σ} {rest : List Char}
    (hword : word.toList = '-' :: '-' :: rest)
    (h : longItem? options.withHelp word.toList = .ok item) : IsItem options word item := by
  have hstart : ['-', '-'] <+: (String.ofList (word.toList.takeWhile (· ≠ '='))).toList := by
    rw [hword]
    exact ⟨rest.takeWhile (· ≠ '='), by simp⟩
  have hplain : '=' ∉ (String.ofList (word.toList.takeWhile (· ≠ '='))).toList := by
    rw [String.toList_ofList]
    exact fun h ↦ absurd (List.mem_takeWhile_imp h) (by decide)
  rw [longItem?] at h
  rcases hlookup : options.withHelp.lookup (String.ofList (word.toList.takeWhile (· ≠ '=')))
    with _ | effect
  · simp only [hlookup] at h
    rcases hfilter : options.withHelp.filter fun option ↦
        (word.toList.takeWhile (· ≠ '=')).isPrefixOf option.1.toList with
      _ | ⟨⟨name, effect⟩, _ | ⟨_, _⟩⟩
    · simp only [hfilter] at h
      cases h
      exact isItem_of_filter_eq_nil hword hfilter
    · simp only [hfilter] at h
      cases h
      rw [← String.toList_ofList (l := word.toList.takeWhile (· ≠ '='))] at hfilter
      obtain ⟨hnames, hmem⟩ := names_of_filter hstart hplain hlookup hfilter
      exact isItem_of_names hnames hmem
    · simp only [hfilter] at h
      cases h
  · simp only [hlookup] at h
    cases h
    obtain ⟨first, last, hsplit, -⟩ := List.lookup_eq_some_iff.mp hlookup
    have hoption := hsplit ▸ List.mem_append_right first (List.mem_cons_self (l := last))
    exact isItem_of_names ⟨hstart, hplain, Or.inl ⟨rfl, fst_mem_names hoption⟩⟩ hoption

theorem isItem_of_item? {item : Item σ} (h : item? options word = .ok item) :
    IsItem options word item := by
  rw [item?] at h
  split at h
  · next hword => exact isItem_of_longItem? hword h
  · next attached hword =>
    cases h
    exact .help _
  · next c rest hlong hshort hword =>
    cases h
    refine isItem_nonOption fun hspace ↦ ?_
    rw [hword, List.drop_one, List.tail_cons] at hspace
    rw [Vocabulary.IsArgument, hword]
    split
    · next heq =>
      cases heq
      exact absurd rfl hlong
    · next heq =>
      cases heq
      exact absurd rfl hshort
    · next heq =>
      cases heq
      simpa using hspace
    · trivial
  · next hlong hshort hhyphen =>
    cases h
    refine .argument ?_
    rw [Vocabulary.IsArgument]
    split
    · next hword => exact absurd hword (hlong _)
    · next hword => exact absurd hword (hshort _)
    · next hword => exact absurd hword (hhyphen _ _)
    · trivial

/-! ## Items -/

theorem items?_separator : items? options ("--" :: words)
    = .ok (("--", .separator) :: words.map fun word ↦ (word, .argument)) := by
  rw [items?, if_pos rfl]

theorem items?_cons (hword : word ≠ "--") {items : List (String × Item σ)} :
    items? options (word :: words) = .ok items ↔ ∃ item more, item? options word = .ok item ∧
      items? options words = .ok more ∧ items = (word, item) :: more := by
  rw [items?, if_neg hword, bind_eq_ok_iff]
  refine exists_congr fun item ↦ ?_
  rw [exists_and_left, bind_eq_ok_iff]
  refine and_congr_right' (exists_congr fun more ↦ and_congr_right' ?_)
  exact ⟨fun h ↦ (Except.ok.inj h).symm, fun h ↦ h ▸ rfl⟩

/-! ## Words one by one -/

namespace Progress

variable {p q : Progress σ} {items : List (String × Item σ)}

theorem exists_of_give? {put? : String → σ → Option σ} {text : String}
    (h : p.give? put? text = .ok q) :
    ∃ s, put? text p.settings = some s ∧
      q = { p with settings := s, waiting? := none, justTaken := false } := by
  rw [give?] at h
  rcases hput : put? text p.settings with _ | s
  · rw [hput] at h
    cases h
  · rw [hput] at h
    exact ⟨s, rfl, (Except.ok.inj h).symm⟩

theorem surplus_of_step? {item : String × Item σ} (h : p.step? item = .ok q)
    (hsurplus : p.surplus = true) : q.surplus = true := by
  have hgive {put? : String → σ → Option σ} {text : String} (h : p.give? put? text = .ok q) :
      q.surplus = true := by
    obtain ⟨_, -, rfl⟩ := exists_of_give? h
    exact hsurplus
  rw [step?] at h
  split at h
  · rw [argument?] at h
    split at h
    · exact hgive h
    · cases h
      exact hsurplus
    · cases h
      rfl
  · cases h
  · next effect attached? _ _ =>
    rw [option?.eq_def] at h
    split at h
    · cases h
    · cases h
      exact hsurplus
    · cases h
      exact hsurplus
    · exact hgive h
    · cases h
  · cases h
    rfl
  · cases h
    simp [hsurplus]

theorem surplus_of_foldlM (h : items.foldlM step? p = .ok q) (hsurplus : p.surplus = true) :
    q.surplus = true := by
  induction items generalizing p with
  | nil =>
    cases h
    exact hsurplus
  | cons item items ih =>
    obtain ⟨r, hr, h⟩ := bind_eq_ok_iff.mp h
    exact ih h (surplus_of_step? hr hsurplus)

theorem kept_of_foldlM (h : items.foldlM step? p = .ok q) (hsurplus : q.surplus = false) :
    p.surplus = false := by
  refine eq_false_of_ne_true fun hlost ↦ ?_
  rw [surplus_of_foldlM h hlost] at hsurplus
  cases hsurplus

/-- Words are read as phrases that lead from one state to another one. -/
def Follows (options : Options σ) (words : List String) (p q : Progress σ) : Prop :=
  ∃ phrases, Says options.vocabulary words phrases ∧
    Applies options phrases p.settings q.settings ∧
    p.operand?.toList ++ operands phrases = q.operand?.toList

/-- An argument is the operand when no option waits for its value. -/
theorem exists_of_argument? (h : p.step? (word, .argument) = .ok q) (hwaiting : p.waiting? = none)
    (hsurplus : q.surplus = false) :
    p.operand? = none ∧
      q = { p with waiting? := none, operand? := some word, justTaken := true } := by
  simp only [step?, argument?, hwaiting] at h
  rcases hoperand : p.operand? with _ | operand
  · rw [hoperand] at h
    exact ⟨rfl, (Except.ok.inj h).symm⟩
  · rw [hoperand] at h
    cases h
    cases hsurplus

/-- Arguments are operands when no option waits for its value. -/
theorem settings_of_arguments
    (h : (words.map fun word ↦ (word, Item.argument)).foldlM step? p = .ok q)
    (hwaiting : p.waiting? = none) (hsurplus : q.surplus = false) :
    q.settings = p.settings ∧ p.operand?.toList ++ words = q.operand?.toList := by
  induction words generalizing p with
  | nil =>
    cases h
    exact ⟨rfl, List.append_nil _⟩
  | cons word words ih =>
    obtain ⟨r, hr, h⟩ := bind_eq_ok_iff.mp h
    obtain ⟨hoperand, rfl⟩ := exists_of_argument? hr hwaiting (kept_of_foldlM h hsurplus)
    obtain ⟨hsettings, hwords⟩ := ih h rfl
    refine ⟨hsettings, ?_⟩
    rw [hoperand, ← hwords]
    rfl

/-- Words are read as phrases, but the first of them as the value of an option that waits for it. -/
def Resumes (options : Options σ) (words : List String) (p q : Progress σ) : Prop :=
  match p.waiting? with
  | none => Follows options words p q
  | some put? => ∃ text rest s, words = text :: rest ∧ options.vocabulary.IsArgument text ∧
      put? text p.settings = some s ∧ Follows options rest { p with settings := s } q

theorem resumes_of_waiting?_eq_none (h : p.waiting? = none) :
    Resumes options words p q ↔ Follows options words p q := by
  rw [Resumes, h]

/-- Behind two hyphens all words are taken up as operands. -/
theorem resumes_separator
    (h : (("--", Item.separator) :: words.map fun word ↦ (word, .argument)).foldlM step? p = .ok q)
    (hsurplus : q.surplus = false) : Resumes options ("--" :: words) p q := by
  obtain ⟨r, hr, h⟩ := bind_eq_ok_iff.mp h
  rcases hstate : p.waiting? with _ | put? <;> simp only [step?, hstate] at hr <;> cases hr
  obtain ⟨hsettings, hwords⟩ := settings_of_arguments h rfl hsurplus
  refine (resumes_of_waiting?_eq_none hstate).mpr ⟨words.map .operand, .separator words, ?_, ?_⟩
  · rw [hsettings]
    exact applies_operands options words _
  · rw [operands_map_operand]
    exact hwords

/-- What comes of a word when no option waits for its value: it is an operand or an option, and of
an option the value may be the next word. -/
theorem follows_cons {item : Item σ} {r : Progress σ} (hword : word ≠ "--")
    (hitem : IsItem options word item) (hstate : p.waiting? = none)
    (hr : p.step? (word, item) = .ok r) (hkept : r.surplus = false)
    (hnext : Resumes options words r q) : Follows options (word :: words) p q := by
  cases hitem with
  | argument argument =>
    obtain ⟨hoperand, rfl⟩ := exists_of_argument? hr hstate hkept
    obtain ⟨phrases, hphrases, happlies, hoperands⟩ := hnext
    refine ⟨_, .operand argument hphrases, .operand happlies, ?_⟩
    rw [hoperand, ← hoperands]
    rfl
  | unknown =>
    simp only [step?, hstate] at hr
    cases hr
    cases hkept
  | help attached? =>
    simp only [step?, hstate] at hr
    rcases attached? with _ | _ <;> cases hr
  | @bare name effect names mem =>
    simp only [step?, hstate] at hr
    rcases effect with put | put? | _ <;> cases hr
    · have hwaiting : { p with settings := put p.settings, justTaken := false }.waiting? = none :=
        hstate
      obtain ⟨phrases, hphrases, happlies, hoperands⟩ :=
        (resumes_of_waiting?_eq_none hwaiting).mp hnext
      exact ⟨_, .switch names (mem_vocabulary mem) hword hphrases, .switch mem happlies, hoperands⟩
    · obtain ⟨text, rest, s, rfl, hargument, hput, phrases, hphrases, happlies, hoperands⟩ := hnext
      exact ⟨_, .spaced names (mem_vocabulary mem) hword hargument hphrases,
        .value mem hput happlies, hoperands⟩
  | @attached start name text effect names mem form =>
    simp only [step?, hstate] at hr
    rcases effect with put | put? | _
    · cases hr
    · obtain ⟨s, hput, rfl⟩ := exists_of_give? hr
      obtain ⟨phrases, hphrases, happlies, hoperands⟩ := hnext
      exact ⟨_, .attached form names (mem_vocabulary mem) hphrases, .value mem hput happlies,
        hoperands⟩
    · cases hr

/-- Nothing but an argument is taken up by an option that waits for its value. -/
theorem exists_of_waiting {item : Item σ} {r : Progress σ} {put? : String → σ → Option σ}
    (hitem : IsItem options word item) (hstate : p.waiting? = some put?)
    (hr : p.step? (word, item) = .ok r) :
    options.vocabulary.IsArgument word ∧ ∃ s, put? word p.settings = some s ∧
      r = { p with settings := s, waiting? := none, justTaken := false } := by
  cases hitem with
  | argument argument =>
    rw [step?, argument?, hstate] at hr
    exact ⟨argument, exists_of_give? hr⟩
  | _ =>
    simp only [step?, hstate] at hr
    cases hr

theorem resumes_of_foldlM (hitems : items? options words = .ok items)
    (h : items.foldlM step? p = .ok q) (hwaiting : q.waiting? = none)
    (hsurplus : q.surplus = false) : Resumes options words p q := by
  induction words generalizing p items with
  | nil =>
    cases hitems
    cases h
    exact (resumes_of_waiting?_eq_none hwaiting).mpr ⟨[], .nil, .nil, List.append_nil _⟩
  | cons word words ih =>
    by_cases hword : word = "--"
    · subst hword
      rw [items?_separator] at hitems
      cases hitems
      exact resumes_separator h hsurplus
    obtain ⟨item, more, hitem, hmore, rfl⟩ := (items?_cons hword).mp hitems
    obtain ⟨r, hr, hrest⟩ := bind_eq_ok_iff.mp h
    have hnext := ih hmore hrest
    rw [Resumes]
    rcases hstate : p.waiting? with _ | put?
    · exact follows_cons hword (isItem_of_item? hitem) hstate hr (kept_of_foldlM hrest hsurplus) hnext
    · -- The word is the value of the option, and the next one begins a phrase again.
      obtain ⟨hargument, s, hput, rfl⟩ := exists_of_waiting (isItem_of_item? hitem) hstate hr
      exact ⟨word, words, s, rfl, hargument, hput, hnext⟩

/-- Only an argument that no option waits for changes the operand. -/
theorem operand?_of_step? {item : Item σ} (h : p.step? (word, item) = .ok q)
    (hitem : item = .argument → p.waiting? ≠ none) : q.operand? = p.operand? := by
  have hgive {put? : String → σ → Option σ} {text : String} (h : p.give? put? text = .ok q) :
      q.operand? = p.operand? := by
    obtain ⟨_, -, rfl⟩ := exists_of_give? h
    rfl
  cases item with
  | argument =>
    rcases hstate : p.waiting? with _ | put?
    · exact absurd hstate (hitem rfl)
    · simp only [step?, argument?, hstate] at h
      exact hgive h
  | option effect attached? =>
    rcases hstate : p.waiting? with _ | put?
    · simp only [step?, hstate] at h
      rcases effect with _ | _ | _ <;> rcases attached? with _ | text
      all_goals first | exact hgive h | cases h
      all_goals rfl
    · simp only [step?, hstate] at h
      cases h
  | _ =>
    rcases hstate : p.waiting? with _ | put?
    all_goals
      simp only [step?, hstate] at h
      cases h
    rfl

theorem map_fst_of_items? (h : items? options words = .ok items) : items.map Prod.fst = words := by
  induction words generalizing items with
  | nil =>
    cases h
    rfl
  | cons word words ih =>
    by_cases hword : word = "--"
    · subst hword
      rw [items?_separator] at h
      cases h
      rw [List.map_cons, List.map_map]
      exact congrArg _ (List.map_id words)
    · obtain ⟨item, more, -, hmore, rfl⟩ := (items?_cons hword).mp h
      rw [List.map_cons, ih hmore]

theorem leading?_cons {item : Item σ} (hitem : item = .argument → p.waiting? ≠ none)
    (hseparator : item ≠ .separator) : p.leading? ((word, item) :: items)
      = p.step? (word, item) >>= fun r ↦ r.leading? items := by
  rw [leading?.eq_def]
  split
  · next heq => cases heq
  · next heq =>
    cases heq
    split
    · next hstate => exact absurd hstate (hitem rfl)
    · exact absurd rfl hseparator
    · rfl

/-- The words before the first argument that no option waits for are taken up. -/
theorem exists_of_leading? {rest : List String} (hitems : items? options words = .ok items)
    (h : p.leading? items = .ok (q, word, rest)) :
    ∃ before init, words = before ++ word :: rest ∧ "--" ∉ before ∧
      items? options before = .ok init ∧ init.foldlM step? p = .ok q ∧ q.waiting? = none ∧
      q.operand? = p.operand? := by
  induction words generalizing p items with
  | nil =>
    cases hitems
    cases h
  | cons first words ih =>
    by_cases hfirst : first = "--"
    · subst hfirst
      rw [items?_separator] at hitems
      cases hitems
      cases h
    obtain ⟨item, more, hitem, hmore, rfl⟩ := (items?_cons hfirst).mp hitems
    -- The first argument that no option waits for is the command.
    by_cases hstop : item = .argument ∧ p.waiting? = none
    · obtain ⟨rfl, hstate⟩ := hstop
      rw [leading?.eq_def] at h
      simp only [hstate] at h
      cases h
      refine ⟨[], [], ?_, List.not_mem_nil, rfl, rfl, hstate, rfl⟩
      rw [List.nil_append, map_fst_of_items? hmore]
    · have hargument : item = .argument → p.waiting? ≠ none := fun h hstate ↦ hstop ⟨h, hstate⟩
      rw [leading?_cons hargument (isItem_of_item? hitem).ne_separator] at h
      obtain ⟨r, hr, h⟩ := bind_eq_ok_iff.mp h
      obtain ⟨before, init, rfl, hseparator, hinit, hfold, hwaiting, hoperand⟩ := ih hmore h
      refine ⟨first :: before, (first, item) :: init, rfl, ?_,
        (items?_cons hfirst).mpr ⟨item, init, hitem, hinit, rfl⟩,
        bind_eq_ok_iff.mpr ⟨r, hr, hfold⟩, hwaiting,
        hoperand.trans (operand?_of_step? hr hargument)⟩
      exact List.not_mem_cons_of_ne_of_not_mem (Ne.symm hfirst) hseparator

end Progress

/-! ## Command lines as a whole -/

theorem says_of_all? {items : List (String × Item σ)} {s : σ} {q : Progress σ} {operand : String}
    (hitems : items? options words = .ok items)
    (h : Progress.all? { settings := s } items = .ok (q, operand)) (hsurplus : q.surplus = false) :
    ∃ phrases, Says options.vocabulary words phrases ∧ Applies options phrases s q.settings ∧
      operands phrases = [operand] := by
  obtain ⟨r, hfold, h⟩ := bind_eq_ok_iff.mp h
  rcases hwaiting : r.waiting? with _ | _
  · rcases hoperand : r.operand? with _ | text
    · simp only [hwaiting, hoperand] at h
      cases h
    · simp only [hwaiting, hoperand] at h
      cases h
      obtain ⟨phrases, hphrases, happlies, hoperands⟩ :=
        Progress.resumes_of_foldlM hitems hfold hwaiting hsurplus
      rw [hoperand] at hoperands
      exact ⟨phrases, hphrases, happlies, hoperands⟩
  · simp only [hwaiting] at h
    cases h

theorem says_of_leading? {items : List (String × Item σ)} {s : σ} {q : Progress σ}
    {rest : List String} (hitems : items? options words = .ok items)
    (h : Progress.leading? { settings := s } items = .ok (q, word, rest))
    (hsurplus : q.surplus = false) :
    ∃ before phrases, words = before ++ word :: rest ∧ "--" ∉ before ∧
      Says options.vocabulary before phrases ∧ Applies options phrases s q.settings ∧
      operands phrases = [] := by
  obtain ⟨before, init, hsplit, hseparator, hinit, hfold, hwaiting, hoperand⟩ :=
    Progress.exists_of_leading? hitems h
  obtain ⟨phrases, hphrases, happlies, hoperands⟩ :=
    Progress.resumes_of_foldlM hinit hfold hwaiting hsurplus
  rw [hoperand] at hoperands
  exact ⟨before, phrases, hsplit, hseparator, hphrases, happlies, hoperands⟩

end Engraving.CommandLine
