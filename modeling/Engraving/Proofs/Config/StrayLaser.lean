import Engraving.Proofs.Config.StrayFailure
import Engraving.Proofs.Number.FixedPoint

/-!
# Lasers that break no rule for configurations

A laser is refused beyond the rules when its power or feed rate is no integer, or when an integer is
so long that it can be told neither in a broken rule nor in a name.

Before that, one of several lasers is selected. To list the names of lasers, as the rules about them
do, all the names have to be texts. To look up the laser that is named by default, its name is
written as a text, even when the laser stands under something else.
-/

namespace Engraving

open Document

variable {α : Type} {store : Store} {entries : Entries}

/-! ## Integers in a range -/

namespace Document

/-- The value under the key is read as an integer. -/
def HasWhole (entries : Entries) (key : String) (n : ℤ) : Prop :=
  ∃ value, field? key entries = some value ∧ value.toWhole? = .ok n

theorem strays_required?_bind_iff {f : Document → Except DocumentError α} :
    Strays (required? key entries >>= f) ↔
      ∃ value, field? key entries = some value ∧ Strays (f value) := by
  rw [required?]
  rcases field? key entries with _ | value
  · exact iff_of_false not_strays_invalid (by rintro ⟨_, ⟨⟩, -⟩)
  · exact ⟨fun h ↦ ⟨value, rfl, h⟩, by rintro ⟨_, ⟨⟩, h⟩; exact h⟩

end Document

/-- The integer has too many digits to be written. -/
def IsLong (n : ℤ) : Prop := 10 ^ NumberError.maxDigits ≤ n.natAbs

theorem strays_refuseWhole_iff {rule : ℤ → ConfigError} {n : ℤ} :
    Strays (refuseWhole rule n) ↔ IsLong n := by
  rw [IsLong, ← not_lt, ← exists_wholeText?_iff, refuseWhole]
  rcases wholeText? n with e | text
  · exact iff_of_true (strays_error rfl) (by rintro ⟨_, ⟨⟩⟩)
  · exact iff_of_false not_strays_invalid (not_not_intro ⟨text, rfl⟩)

theorem refuseWhole_ne_ok {rule : ℤ → ConfigError} {n : ℤ} : refuseWhole rule n ≠ .ok () := by
  rw [refuseWhole]
  split
  · exact nofun
  · exact nofun

/-- An integer that has to be there and inside of a range. -/
theorem strays_checkedWhole?_bind_iff {key : String} {inside : ℤ → Prop} [DecidablePred inside]
    {rule : ℤ → ConfigError} {f : ℤ → Except DocumentError α} :
    Strays (do
      let n ← (← required? key entries).toWhole?.mapError .conversion
      unless inside n do refuseWhole rule n
      f n) ↔
      IsUnreadable toWhole? entries key ∨ ∃ n, HasWhole entries key n ∧
        (¬inside n ∧ IsLong n ∨ inside n ∧ Strays (f n)) := by
  have hcheck (n : ℤ) :
      Strays (if inside n then f n else refuseWhole rule n >>= fun _ ↦ f n) ↔
        ¬inside n ∧ IsLong n ∨ inside n ∧ Strays (f n) := by
    by_cases hn : inside n
    · rw [if_pos hn, or_iff_right fun h ↦ h.1 hn, and_iff_right hn]
    · rw [if_neg hn, or_iff_left fun h ↦ hn h.1, and_iff_right hn, strays_bind_iff,
        strays_refuseWhole_iff]
      exact or_iff_left fun ⟨_, h, _⟩ ↦ refuseWhole_ne_ok h
  rw [strays_required?_bind_iff]
  simp only [strays_bind_iff, strays_conversion_iff, mapError_eq_ok_iff]
  constructor
  · rintro ⟨value, hvalue, ⟨e, he⟩ | ⟨n, hn, h⟩⟩
    · exact .inl ⟨value, e, hvalue, he⟩
    · exact .inr ⟨n, ⟨value, hvalue, hn⟩, (hcheck n).mp h⟩
  · rintro (⟨value, e, hvalue, he⟩ | ⟨n, ⟨value, hvalue, hn⟩, h⟩)
    · exact ⟨value, hvalue, .inl ⟨e, he⟩⟩
    · exact ⟨value, hvalue, .inr ⟨n, hn, (hcheck n).mpr h⟩⟩

theorem strays_shown?_bind_iff {value : Document} {f : String → Except DocumentError α}
    (hf : ∀ text, ¬Strays (f text)) :
    Strays (shown? store value >>= f) ↔ ∃ e, value.plainText? store = .error e := by
  rw [strays_bind_iff_left hf, shown?]
  rcases value.plainText? store with e | text
  · exact iff_of_true (strays_error rfl) ⟨e, rfl⟩
  · exact iff_of_false not_strays_ok fun ⟨_, h⟩ ↦ nomatch h

/-! ## Settings -/

namespace Laser

/-- The value that is written as the name of a laser. -/
def nameValue? (key? : Option Document) (settings : Entries) : Option Document :=
  (field? "name" settings).or (key?.filter isTruthy)

/-- How settings are refused although they break no rule. -/
inductive IsStray (store : Store) (key? : Option Document) (settings : Entries) : Prop
  | power (unreadable : IsUnreadable toWhole? settings "max_power_percent")
  /-- The power breaks its rule, but is too long to be told. -/
  | longPower {power : ℤ} (given : HasWhole settings "max_power_percent" power)
    (outside : ¬(0 ≤ power ∧ power ≤ 100)) (long : IsLong power)
  | feedRate {power : ℤ} (given : HasWhole settings "max_power_percent" power)
    (inside : 0 ≤ power ∧ power ≤ 100)
    (unreadable : IsUnreadable toWhole? settings "feed_rate_mm_min")
  /-- The feed rate breaks its rule, but is too long to be told. -/
  | longFeedRate {power feedRate : ℤ} (given : HasWhole settings "max_power_percent" power)
    (inside : 0 ≤ power ∧ power ≤ 100) (rate : HasWhole settings "feed_rate_mm_min" feedRate)
    (nonpositive : feedRate ≤ 0) (long : IsLong feedRate)
  /-- The name has an integer in it that is too long to be written. -/
  | name {power feedRate : ℤ} {value : Document} {e : NumberError}
    (given : HasWhole settings "max_power_percent" power) (inside : 0 ≤ power ∧ power ≤ 100)
    (rate : HasWhole settings "feed_rate_mm_min" feedRate) (positive : 0 < feedRate)
    (called : nameValue? key? settings = some value) (unwritten : value.plainText? store = .error e)

/-- The last step in reading a laser: it is called by its name, or else by its key. -/
def named? (store : Store) (key? : Option Document) (settings : Entries) (maxPower feedRate : ℤ) :
    Except DocumentError Laser := do
  let standard : Laser := {}
  let name ←
    match field? "name" settings with
    | some name => shown? store name
    | none =>
      match key?.filter isTruthy with
      | some key => shown? store key
      | none => .ok standard.name
  return { name, maxPower, feedRate }

/-- The last but one step: the feed rate. -/
def rated? (store : Store) (key? : Option Document) (settings : Entries) (maxPower : ℤ) :
    Except DocumentError Laser := do
  let feedRate ← (← required? "feed_rate_mm_min" settings).toWhole?.mapError .conversion
  unless 0 < feedRate do refuseWhole .feedRate feedRate
  named? store key? settings maxPower feedRate

variable {key? : Option Document} {settings : Entries}

theorem ofDocument?_eq {document : Document} (h : document.entries? store = some settings) :
    ofDocument? store key? document = (do
      let maxPower ← (← required? "max_power_percent" settings).toWhole?.mapError .conversion
      unless 0 ≤ maxPower && maxPower ≤ 100 do refuseWhole .maxPower maxPower
      rated? store key? settings maxPower) := by
  rw [ofDocument?, h]
  rfl

theorem strays_named?_iff {maxPower feedRate : ℤ} :
    Strays (named? store key? settings maxPower feedRate) ↔
      ∃ value e, nameValue? key? settings = some value ∧ value.plainText? store = .error e := by
  have hshown (value : Document) : Strays (do
      let name ← shown? store value
      return { name, maxPower, feedRate : Laser }) ↔
      ∃ value' e, some value = some value' ∧ value'.plainText? store = .error e := by
    refine (strays_shown?_bind_iff fun _ ↦ not_strays_ok).trans ?_
    exact ⟨fun ⟨e, h⟩ ↦ ⟨value, e, rfl, h⟩, by rintro ⟨_, e, ⟨⟩, h⟩; exact ⟨e, h⟩⟩
  rw [named?, nameValue?]
  rcases field? "name" settings with _ | value
  · rcases key?.filter isTruthy with _ | value
    · exact iff_of_false not_strays_ok (by rintro ⟨_, _, ⟨⟩, -⟩)
    · exact hshown value
  · exact hshown value

theorem strays_rated?_iff {maxPower : ℤ} : Strays (rated? store key? settings maxPower) ↔
    IsUnreadable toWhole? settings "feed_rate_mm_min" ∨
      ∃ feedRate, HasWhole settings "feed_rate_mm_min" feedRate ∧ (¬0 < feedRate ∧ IsLong feedRate ∨
        0 < feedRate ∧ ∃ value e, nameValue? key? settings = some value ∧
          value.plainText? store = .error e) := by
  refine (strays_checkedWhole?_bind_iff (f := named? store key? settings maxPower)).trans ?_
  simp only [strays_named?_iff]

theorem strays_ofDocument?_iff {document : Document} :
    Strays (ofDocument? store key? document) ↔
      ∃ settings, document.entries? store = some settings ∧ IsStray store key? settings := by
  rcases hsettings : document.entries? store with _ | settings
  · rw [ofDocument?, hsettings]
    exact iff_of_false not_strays_invalid (by rintro ⟨_, ⟨⟩, -⟩)
  rw [ofDocument?_eq hsettings]
  refine (strays_checkedWhole?_bind_iff (f := rated? store key? settings)).trans ?_
  simp only [strays_rated?_iff, Bool.and_eq_true, decide_eq_true_iff]
  constructor
  · rintro (hpower | ⟨power, hpower, ⟨houtside, hlong⟩ | ⟨hinside, hrate | ⟨rate, hrate,
      ⟨hnonpositive, hlong⟩ | ⟨hpositive, value, e, hcalled, hunwritten⟩⟩⟩⟩)
    · exact ⟨settings, rfl, .power hpower⟩
    · exact ⟨settings, rfl, .longPower hpower houtside hlong⟩
    · exact ⟨settings, rfl, .feedRate hpower hinside hrate⟩
    · exact ⟨settings, rfl, .longFeedRate hpower hinside hrate (not_lt.mp hnonpositive) hlong⟩
    · exact ⟨settings, rfl, .name hpower hinside hrate hpositive hcalled hunwritten⟩
  · rintro ⟨_, ⟨⟩, h⟩
    cases h with
    | power hpower => exact .inl hpower
    | longPower hpower houtside hlong => exact .inr ⟨_, hpower, .inl ⟨houtside, hlong⟩⟩
    | feedRate hpower hinside hrate => exact .inr ⟨_, hpower, .inr ⟨hinside, .inl hrate⟩⟩
    | longFeedRate hpower hinside hrate hnonpositive hlong =>
      exact .inr ⟨_, hpower, .inr ⟨hinside, .inr ⟨_, hrate, .inl ⟨hnonpositive.not_gt, hlong⟩⟩⟩⟩
    | name hpower hinside hrate hpositive hcalled hunwritten =>
      exact .inr ⟨_, hpower, .inr ⟨hinside, .inr ⟨_, hrate,
        .inr ⟨hpositive, _, _, hcalled, hunwritten⟩⟩⟩⟩

end Laser

/-! ## Selection -/

/-- Some laser is called by a key that is no text. -/
def HasOtherKeys (lasers : Entries) : Prop := ∃ entry ∈ lasers, ∀ name, entry.1 ≠ .text name

theorem sortedNames?_eq_error_iff {lasers : Entries} {e : DocumentError} :
    sortedNames? lasers = .error e ↔ e = .namesKind ∧ HasOtherKeys lasers := by
  refine bind_eq_error_iff.trans ((or_iff_left ?_).trans ?_)
  · rintro ⟨_, _, ⟨⟩⟩
  -- All failures are alike, so it does not matter which key is met first.
  refine (mapM_eq_error_iff_of_forall .namesKind ?_).trans ?_
  · rintro ⟨key, _⟩ failure h
    cases key <;> cases h
    all_goals rfl
  refine and_congr_right' (exists_congr fun entry ↦ and_congr_right' ?_)
  rcases entry with ⟨key, _⟩
  cases key
  case text name => exact iff_of_false (by rintro ⟨⟩) fun h ↦ h name rfl
  all_goals exact iff_of_true rfl (by rintro _ ⟨⟩)

theorem strays_sortedNames?_bind_iff {lasers : Entries} {f : List String → Except DocumentError α}
    {p : Prop} (hf : ∀ names, Strays (f names) ↔ p) :
    Strays (sortedNames? lasers >>= f) ↔ HasOtherKeys lasers ∨ p := by
  have hnames : Strays (sortedNames? lasers) ↔ HasOtherKeys lasers := by
    constructor
    · rintro ⟨_, h, -⟩
      exact (sortedNames?_eq_error_iff.mp h).2
    · intro h
      exact ⟨.namesKind, sortedNames?_eq_error_iff.mpr ⟨rfl, h⟩, rfl⟩
  rw [strays_bind_iff_or (fun rule h ↦ nomatch (sortedNames?_eq_error_iff.mp h).1) hf, hnames]

/-- The name by which `default_laser` selects a laser, if it selects one. -/
def defaultName? (store : Store) (entries : Entries) : Option Document :=
  (field? "default_laser" entries).filter fun name ↦ (name.resolve store).isTruthy

theorem strays_wanted_iff {name : String} {lasers : Entries} :
    Strays (do
      if (field? name lasers).isSome then return text name
      else throw (DocumentError.invalid (.profileMissing name (← sortedNames? lasers)))) ↔
      field? name lasers = none ∧ HasOtherKeys lasers := by
  rcases field? name lasers with _ | laser
  · refine (strays_sortedNames?_bind_iff fun _ ↦ iff_false_intro not_strays_invalid).trans ?_
    rw [or_false, and_iff_right rfl]
  · exact iff_of_false not_strays_ok fun h ↦ nomatch h.1

theorem strays_default_iff {name : Document} {lasers : Entries} :
    Strays (do
      if !name.isKey then throw DocumentError.nameKind
      else if (lookup? name lasers).isSome then return text (← shown? store name)
      else
        let available ← sortedNames? lasers
        throw (.invalid (.defaultMissing (← shown? store name) available))) ↔
      name.isKey = false ∨ name.isKey = true ∧
        (lookup? name lasers = none ∧ HasOtherKeys lasers ∨
          ∃ e, name.plainText? store = .error e) := by
  rcases name.isKey with _ | _
  · exact iff_of_true (strays_error rfl) (.inl rfl)
  rw [or_iff_right Bool.noConfusion, and_iff_right rfl]
  rcases lookup? name lasers with _ | laser
  · rw [and_iff_right rfl]
    exact strays_sortedNames?_bind_iff fun _ ↦ strays_shown?_bind_iff fun _ ↦ not_strays_invalid
  · rw [or_iff_right fun h ↦ nomatch h.1]
    exact strays_shown?_bind_iff fun _ ↦ not_strays_ok

/-- How lasers are refused, although they break no rule, before one of them is looked at. -/
inductive IsStraySelection (store : Store) (profile? : Option String) (default? : Option Document)
    (lasers : Entries) : Prop
  /-- The laser that is asked for is missing, and the others cannot be listed. -/
  | names {name : String} (wanted : profile? = some name) (missing : field? name lasers = none)
    (others : HasOtherKeys lasers)
  /-- The name of the default laser is a collection. -/
  | defaultKind {name : Document} (unasked : profile? = none) (wanted : default? = some name)
    (collection : name.isKey = false)
  | defaultNames {name : Document} (unasked : profile? = none) (wanted : default? = some name)
    (key : name.isKey = true) (missing : lookup? name lasers = none) (others : HasOtherKeys lasers)
  /-- The name of the default laser is too long to be written. -/
  | defaultText {name : Document} {e : NumberError} (unasked : profile? = none)
    (wanted : default? = some name) (key : name.isKey = true)
    (unwritten : name.plainText? store = .error e)

theorem strays_selectedKey?_iff {profile? : Option String} {default? : Option Document}
    {lasers : Entries} : Strays (selectedKey? store profile? default? lasers) ↔
      IsStraySelection store profile?
        (default?.filter fun name ↦ (name.resolve store).isTruthy) lasers := by
  unfold selectedKey?
  -- `default_laser` is looked at only when no laser is asked for.
  generalize default?.filter (fun name ↦ (name.resolve store).isTruthy) = default?
  rcases profile? with _ | name
  · rcases default? with _ | name
    · refine iff_of_false not_strays_ok ?_
      rintro (⟨⟨⟩, -, -⟩ | ⟨-, ⟨⟩, -⟩ | ⟨-, ⟨⟩, -, -, -⟩ | ⟨-, ⟨⟩, -, -⟩)
    refine strays_default_iff.trans ?_
    constructor
    · rintro (hcollection | ⟨hkey, ⟨hmissing, hothers⟩ | ⟨e, htext⟩⟩)
      · exact .defaultKind rfl rfl hcollection
      · exact .defaultNames rfl rfl hkey hmissing hothers
      · exact .defaultText rfl rfl hkey htext
    · rintro (⟨⟨⟩, -, -⟩ | ⟨-, ⟨⟩, hcollection⟩ | ⟨-, ⟨⟩, hkey, hmissing, hothers⟩ |
        ⟨-, ⟨⟩, hkey, htext⟩)
      · exact .inl hcollection
      · exact .inr ⟨hkey, .inl ⟨hmissing, hothers⟩⟩
      · exact .inr ⟨hkey, .inr ⟨_, htext⟩⟩
  · refine strays_wanted_iff.trans ?_
    constructor
    · rintro ⟨hmissing, hothers⟩
      exact .names rfl hmissing hothers
    · rintro (⟨⟨⟩, hmissing, hothers⟩ | ⟨⟨⟩, -, -⟩ | ⟨⟨⟩, -, -, -, -⟩ | ⟨⟨⟩, -, -, -⟩)
      exact ⟨hmissing, hothers⟩

def HasLasers (store : Store) (entries lasers : Entries) : Prop :=
  lasers ≠ [] ∧ ∃ value, field? "lasers" entries = some value ∧ value.entries? store = some lasers

theorem HasLasers.unique {lasers lasers' : Entries} (h : HasLasers store entries lasers)
    (h' : HasLasers store entries lasers') : lasers = lasers' := by
  obtain ⟨-, value, hvalue, hentries⟩ := h
  obtain ⟨-, value', hvalue', hentries'⟩ := h'
  obtain rfl : value = value' := Option.some.inj (hvalue.symm.trans hvalue')
  exact Option.some.inj (hentries.symm.trans hentries')

theorem HasLasers.field?_ne_none {lasers : Entries} (h : HasLasers store entries lasers) :
    field? "lasers" entries ≠ none := by
  obtain ⟨-, value, hvalue, -⟩ := h
  rw [hvalue]
  exact nofun

/-- The laser that a document selects, and the key that it stands under among others. -/
inductive Selects (store : Store) (profile? : Option String) (entries : Entries) :
    Option Document → Document → Prop
  | single {laser : Document} (alone : field? "lasers" entries = none) (unasked : profile? = none)
    (given : field? "laser" entries = some laser) : Selects store profile? entries none laser
  | among {lasers : Entries} {key laser : Document} (given : HasLasers store entries lasers)
    (selected : selectedKey? store profile? (field? "default_laser" entries) lasers = .ok key)
    (found : lookup? key lasers = some laser) : Selects store profile? entries (some key) laser

/-- How a document is refused for its lasers, although it breaks no rule. -/
inductive IsStrayLaser (store : Store) (profile? : Option String) (entries : Entries) : Prop
  | selection {lasers : Entries} (given : HasLasers store entries lasers)
    (stray : IsStraySelection store profile? (defaultName? store entries) lasers)
  /-- Nothing stands under the text of the key that is selected. -/
  | lookup {lasers : Entries} {key : Document} (given : HasLasers store entries lasers)
    (selected : selectedKey? store profile? (field? "default_laser" entries) lasers = .ok key)
    (missing : lookup? key lasers = none)
  | settings {key? : Option Document} {laser : Document} {settings : Entries}
    (selected : Selects store profile? entries key? laser)
    (mapping : laser.entries? store = some settings) (stray : Laser.IsStray store key? settings)

def laserAmong? (store : Store) (profile? : Option String) (entries lasers : Entries) :
    Except DocumentError Laser := do
  let key ← selectedKey? store profile? (field? "default_laser" entries) lasers
  match lookup? key lasers with
  | some document => Laser.ofDocument? store (some key) document
  | none => throw (.nameLookup (← shown? store key))

section selected

variable {profile? : Option String} {lasers : Entries}

theorem strays_nameLookup {key : Document} :
    Strays (do throw (.nameLookup (← shown? store key)) : Except DocumentError Laser) := by
  have hshown (rule : ConfigError) : shown? store key ≠ .error (.invalid rule) := by
    intro h
    obtain ⟨_, -, ⟨⟩⟩ := mapError_eq_error_iff.mp h
  exact (strays_bind_iff_or hshown fun _ ↦ iff_true_intro (strays_error rfl)).mpr (.inr trivial)

theorem strays_laserAmong?_iff : Strays (laserAmong? store profile? entries lasers) ↔
    IsStraySelection store profile? (defaultName? store entries) lasers ∨
      ∃ key, selectedKey? store profile? (field? "default_laser" entries) lasers = .ok key ∧
        (lookup? key lasers = none ∨ ∃ laser settings, lookup? key lasers = some laser ∧
          laser.entries? store = some settings ∧ Laser.IsStray store (some key) settings) := by
  rw [laserAmong?, strays_bind_iff, strays_selectedKey?_iff]
  refine or_congr_right (exists_congr fun key ↦ and_congr_right' ?_)
  rcases lookup? key lasers with _ | laser
  · exact iff_of_true strays_nameLookup (.inl rfl)
  · refine Laser.strays_ofDocument?_iff.trans ?_
    simp only [reduceCtorEq, false_or, Option.some.injEq, exists_and_left, exists_eq_left']

theorem isStrayLaser_iff_of_hasLasers (given : HasLasers store entries lasers) :
    IsStrayLaser store profile? entries ↔ Strays (laserAmong? store profile? entries lasers) := by
  rw [strays_laserAmong?_iff]
  constructor
  · rintro (⟨given', hselection⟩ | ⟨given', hkey, hmissing⟩ | ⟨hselects, hsettings, h⟩)
    · obtain rfl := given.unique given'
      exact .inl hselection
    · obtain rfl := given.unique given'
      exact .inr ⟨_, hkey, .inl hmissing⟩
    · rcases hselects with ⟨halone, -, -⟩ | ⟨given', hkey, hlaser⟩
      · exact absurd halone given.field?_ne_none
      · obtain rfl := given.unique given'
        exact .inr ⟨_, hkey, .inr ⟨_, _, hlaser, hsettings, h⟩⟩
  · rintro (hselection | ⟨key, hkey, hmissing | ⟨laser, settings, hlaser, hsettings, h⟩⟩)
    · exact .selection given hselection
    · exact .lookup given hkey hmissing
    · exact .settings (.among given hkey hlaser) hsettings h

/-- Without several lasers it is the only one that may be refused. -/
theorem isStrayLaser_iff_of_not_hasLasers (h : ∀ lasers, ¬HasLasers store entries lasers) :
    IsStrayLaser store profile? entries ↔ field? "lasers" entries = none ∧ profile? = none ∧
      ∃ laser settings, field? "laser" entries = some laser ∧
        laser.entries? store = some settings ∧ Laser.IsStray store none settings := by
  constructor
  · rintro (⟨given, -⟩ | ⟨given, -, -⟩ | ⟨⟨halone, hprofile, hlaser⟩ | ⟨given, -, -⟩, hsettings,
      hstray⟩)
    · exact absurd given (h _)
    · exact absurd given (h _)
    · exact ⟨halone, hprofile, _, _, hlaser, hsettings, hstray⟩
    · exact absurd given (h _)
  · rintro ⟨halone, hprofile, laser, settings, hlaser, hsettings, hstray⟩
    exact .settings (.single halone hprofile hlaser) hsettings hstray

/-- With several lasers it is among them that one is selected. -/
theorem selectedLaser?_eq_of_hasLasers (given : HasLasers store entries lasers) :
    selectedLaser? store profile? entries = laserAmong? store profile? entries lasers := by
  obtain ⟨hne, value, hvalue, hentries⟩ := given
  obtain ⟨first, rest, rfl⟩ := List.exists_cons_of_ne_nil hne
  rw [selectedLaser?, hvalue]
  simp only [hentries]
  rfl

theorem strays_selectedLaser?_iff :
    Strays (selectedLaser? store profile? entries) ↔ IsStrayLaser store profile? entries := by
  by_cases hgiven : ∃ lasers, HasLasers store entries lasers
  · obtain ⟨lasers, given⟩ := hgiven
    rw [isStrayLaser_iff_of_hasLasers given, selectedLaser?_eq_of_hasLasers given]
  rw [isStrayLaser_iff_of_not_hasLasers (not_exists.mp hgiven), selectedLaser?]
  rcases hvalue : field? "lasers" entries with _ | value
  · rcases profile? with _ | name
    · refine strays_required?_bind_iff.trans ?_
      simp only [Laser.strays_ofDocument?_iff, true_and, exists_and_left]
    · exact iff_of_false not_strays_invalid (by rintro ⟨-, ⟨⟩, -⟩)
  · refine iff_of_false ?_ fun h ↦ nomatch h.1
    rcases hentries : value.entries? store with _ | _ | ⟨first, rest⟩
    · simp only [hentries]
      exact not_strays_invalid
    · simp only [hentries]
      exact not_strays_invalid
    · exact absurd ⟨first :: rest, List.cons_ne_nil _ _, value, hvalue, hentries⟩ hgiven

end selected

end Engraving
