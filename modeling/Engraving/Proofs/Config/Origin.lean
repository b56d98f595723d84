import Engraving.Proofs.Config.Acceptance

/-!
# Where settings come from

The settings in a configuration come from the entries of a document, those of the laser from the
entries of one laser, and each has a value that it has otherwise. Which laser is chosen depends on
the name that is asked for, then on `default_laser`, then on the order of the lasers.
-/

namespace Engraving

namespace Document

variable {ε α : Type} {store : Store} {entries : Entries} {key : String}

/-- A setting is what the value under a key is converted to, or is settled otherwise. -/
def IsEntered (entries : Entries) (key : String) (convert : Document → Except ε α)
    (otherwise : α → Prop) (a : α) : Prop :=
  match field? key entries with
  | some value => convert value = .ok a
  | none => otherwise a

/-- What stands under a key counts as true. -/
def IsTrue (store : Store) (entries : Entries) (key : String) : Prop :=
  ∃ value, field? key entries = some value ∧ (value.resolve store).isTruthy = true

/-- The entries of a section, which is empty when it is missing or counts as false. -/
def IsSection (store : Store) (entries : Entries) (key : String) (found : Entries) : Prop :=
  match field? key entries with
  | some value =>
    if (value.resolve store).isTruthy then value.entries? store = some found else found = []
  | none => found = []

/-- The settings of a laser that is chosen. -/
inductive IsChosen (store : Store) (asked? : Option String) (entries : Entries) (laser : Document) :
    Prop
  | single (alone : field? "lasers" entries = none) (unasked : asked? = none)
    (found : field? "laser" entries = some laser)
  | asked {name : String} {lasers : Entries} (given : HasLasers store entries lasers)
    (asked : asked? = some name) (found : field? name lasers = some laser)
  | named {value : Document} {name : String} {lasers : Entries}
    (given : HasLasers store entries lasers) (unasked : asked? = none)
    (default : field? "default_laser" entries = some value)
    (truthy : (value.resolve store).isTruthy = true) (written : value.plainText? store = .ok name)
    (found : field? name lasers = some laser)
  | first {key value : Document} {rest : Entries}
    (given : HasLasers store entries ((key, value) :: rest)) (unasked : asked? = none)
    (unnamed : ¬IsTrue store entries "default_laser")
    (found : lookup? key ((key, value) :: rest) = some laser)

theorem isEntered_of_realField? {otherwise x : Float}
    (h : realField? key otherwise entries = .ok x) :
    IsEntered entries key toReal? (· = otherwise) x := by
  rw [realField?] at h
  rw [IsEntered]
  rcases hvalue : field? key entries with _ | value
  · rw [hvalue] at h
    exact (Except.ok.inj h).symm
  · rw [hvalue] at h
    exact mapError_eq_ok_iff.mp h

theorem isEntered_of_hasWhole {n : ℤ} (h : HasWhole entries key n) (otherwise : ℤ → Prop) :
    IsEntered entries key toWhole? otherwise n := by
  obtain ⟨value, hvalue, hn⟩ := h
  rw [IsEntered, hvalue]
  exact hn

theorem flagField_false_iff :
    flagField store key false entries = true ↔ IsTrue store entries key := by
  rw [flagField, IsTrue]
  rcases field? key entries with _ | value
  · exact iff_of_false (by rintro ⟨⟩) (by rintro ⟨_, ⟨⟩, -⟩)
  · simp only [Option.some.injEq, exists_eq_left']

theorem isSection_of_section? {found : Entries} (h : section? store key entries = .ok found) :
    IsSection store entries key found := by
  rw [section?] at h
  rw [IsSection]
  rcases hvalue : field? key entries with _ | value
  · rw [hvalue] at h
    exact (Except.ok.inj h).symm
  rw [hvalue] at h
  by_cases htruthy : (value.resolve store).isTruthy = true
  · simp only [if_pos htruthy] at h ⊢
    rcases hfound : value.entries? store with _ | found'
    · rw [hfound] at h
      cases h
    · rw [hfound] at h
      exact congrArg some (Except.ok.inj h)
  · simp only [if_neg htruthy] at h ⊢
    exact (Except.ok.inj h).symm

variable {asked? : Option String} {laser : Document}

/-- A laser that is selected among others is asked for, or named, or the first one. -/
theorem isChosen_of_selectedKey? {lasers : Entries} {key : Document}
    (given : HasLasers store entries lasers)
    (h : selectedKey? store asked? (field? "default_laser" entries) lasers = .ok key)
    (hfound : lookup? key lasers = some laser) : IsChosen store asked? entries laser := by
  unfold selectedKey? at h
  rcases asked? with _ | name
  · rcases hdefault : (field? "default_laser" entries).filter fun name ↦
        (name.resolve store).isTruthy with _ | value
    · obtain ⟨⟨first, value⟩, rest, rfl⟩ := List.exists_cons_of_ne_nil given.1
      simp only [hdefault] at h
      cases h
      refine .first given rfl ?_ hfound
      rintro ⟨value, hvalue, htruthy⟩
      rw [hvalue, Option.filter_some, if_pos htruthy] at hdefault
      cases hdefault
    · obtain ⟨hvalue, htruthy⟩ := Option.filter_eq_some_iff.mp hdefault
      simp only [hdefault] at h
      split at h
      · cases h
      split at h
      · obtain ⟨name, hname, h⟩ := bind_eq_ok_iff.mp h
        cases h
        exact .named given rfl hvalue htruthy (mapError_eq_ok_iff.mp hname) hfound
      · obtain ⟨_, -, h⟩ := bind_eq_ok_iff.mp h
        obtain ⟨_, -, ⟨⟩⟩ := bind_eq_ok_iff.mp h
  · simp only at h
    split at h
    · cases h
      exact .asked given rfl hfound
    · obtain ⟨_, -, ⟨⟩⟩ := bind_eq_ok_iff.mp h

theorem isChosen_of_selects {key? : Option Document}
    (h : Selects store asked? entries key? laser) : IsChosen store asked? entries laser := by
  cases h with
  | single alone unasked found => exact .single alone unasked found
  | among given selected found => exact isChosen_of_selectedKey? given selected found

end Document

open Document

namespace Config

/-- The settings for engraving in a configuration, each as the entries have it, or as it is
otherwise. -/
structure IsDescribed (store : Store) (laser layout : Entries) (c : Config) : Prop where
  width : IsEntered layout "width_mm" toReal? (· = 30) c.layout.width
  height : IsEntered layout "height_mm" toReal? (· = 30) c.layout.height
  startX : IsEntered layout "start_x_mm" toReal? (· = 0) c.layout.startX
  startY : IsEntered layout "start_y_mm" toReal? (· = 0) c.layout.startY
  maxPower : IsEntered laser "max_power_percent" toWhole? (· = 100) c.laser.maxPower
  feedRate : IsEntered laser "feed_rate_mm_min" toWhole? (· = 1000) c.laser.feedRate
  invert : c.layout.invert = true ↔ IsTrue store layout "invert"
  coalesce : c.layout.coalesce = true ↔ IsTrue store layout "coalesce_power_runs"

variable {store : Store} {c : Config}

theorem isDescribed_of_isGiven {key? : Option Document} {laser layout : Entries}
    (hlaser : c.laser.IsGiven store key? laser) (hlayout : c.layout.IsGiven store layout) :
    c.IsDescribed store laser layout where
  width := isEntered_of_realField? hlayout.width
  height := isEntered_of_realField? hlayout.height
  startX := isEntered_of_realField? hlayout.startX
  startY := isEntered_of_realField? hlayout.startY
  maxPower := isEntered_of_hasWhole hlaser.power _
  feedRate := isEntered_of_hasWhole hlaser.feedRate _
  invert := hlayout.invert ▸ flagField_false_iff
  coalesce := hlayout.coalesce ▸ flagField_false_iff

theorem isDescribed_standard (store : Store) : ({} : Config).IsDescribed store [] [] where
  width := rfl
  height := rfl
  startX := rfl
  startY := rfl
  maxPower := rfl
  feedRate := rfl
  invert := iff_of_false nofun (by rintro ⟨_, ⟨⟩, -⟩)
  coalesce := iff_of_false nofun (by rintro ⟨_, ⟨⟩, -⟩)

theorem entries?_of_selectedLaser? {asked? : Option String} {document : Document}
    {entries : Entries} {l : Laser} (hroot : rootEntries? store document = some entries)
    (h : selectedLaser? store asked? entries = .ok l) :
    (document.resolve store).entries? store = some entries := by
  rw [rootEntries?] at hroot
  split at hroot
  · exact hroot
  · cases hroot
    rcases asked? with _ | _
    · cases h
    · cases h

/-- **Where settings come from.** A configuration that is read from a document has its settings from
the entries of the laser that is chosen and from those of the section for engraving. -/
theorem exists_isDescribed {asked? : Option String} {document : Document}
    (h : ofDocument? store asked? document = .ok c) :
    ∃ entries laser settings layout, (document.resolve store).entries? store = some entries ∧
      IsChosen store asked? entries laser ∧ laser.entries? store = some settings ∧
      IsSection store entries "engraving" layout ∧ c.IsDescribed store settings layout := by
  obtain ⟨entries, hroot, hselected, hlayout, -⟩ := ofDocument?_eq_ok_iff.mp h
  obtain ⟨key?, laser, hselects, hlaser⟩ := selectedLaser?_eq_ok_iff.mp hselected
  obtain ⟨settings, hsettings, hgiven⟩ := Laser.ofDocument?_eq_ok_iff.mp hlaser
  obtain ⟨layout, hsection, hlayout⟩ := bind_eq_ok_iff.mp hlayout
  exact ⟨entries, laser, settings, layout, entries?_of_selectedLaser? hroot hselected,
    isChosen_of_selects hselects, hsettings, isSection_of_section? hsection,
    isDescribed_of_isGiven hgiven (Layout.ofEntries?_eq_ok_iff.mp hlayout)⟩

end Config

end Engraving
