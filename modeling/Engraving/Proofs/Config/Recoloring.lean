import Engraving.Proofs.Config.Acceptance
import Engraving.Proofs.Config.ColorText

/-!
# Documents in other colours

An accepted document keeps the ranges of its numbers, and its colours are in one form. When one
colour is replaced by a text, the document is accepted again exactly when the text is a colour, and
nothing but that colour changes. When all of its colours are replaced by the forms in which they are
kept, nothing changes at all.

To replace values under some keys leaves the values under all others alone, and what is read of a
document is read under keys.
-/

namespace Engraving

open Document

variable {store : Store} {entries : Entries}

namespace Document

/-! ## Replacing values under keys -/

theorem isSame_text_iff {a : Document} {key : String} :
    a.isSame (.text key) = true ↔ a = .text key := by
  cases a
  case text s => simp [isSame]
  all_goals exact iff_of_false (by simp [isSame, whole?, Option.isSome_iff_ne_none]) nofun

theorem field?_cons_of_eq {key : String} {entry : Document × Document}
    (h : entry.1 = .text key) : field? key (entry :: entries) = some entry.2 := by
  rw [field?, lookup?, List.find?_cons, isSame_text_iff.mpr h]
  rfl

theorem field?_cons_of_ne {key : String} {entry : Document × Document}
    (h : entry.1 ≠ .text key) : field? key (entry :: entries) = field? key entries := by
  rw [field?, lookup?, List.find?_cons, Bool.eq_false_iff.mpr (mt isSame_text_iff.mp h)]
  rfl

theorem any_isSame_text {key : String} :
    (entries.any fun entry ↦ entry.1.isSame (.text key)) = (field? key entries).isSome := by
  rw [field?, lookup?, Option.isSome_map, List.isSome_find?]

theorem field?_append {key : String} {later : Entries} :
    field? key (entries ++ later) = (field? key entries).or (field? key later) := by
  rw [field?, lookup?, List.find?_append, Option.map_or]
  rfl

/-- The entries with their values under some keys put in another form. -/
def mapFields (keys : List String) (f : Document → Document) (entries : Entries) : Entries :=
  entries.map fun entry ↦
    if keys.any fun key ↦ entry.1.isSame (.text key) then (entry.1, f entry.2) else entry

theorem field?_mapFields {key : String} {keys : List String} {f : Document → Document} :
    field? key (mapFields keys f entries)
      = if key ∈ keys then (field? key entries).map f else field? key entries := by
  induction entries with
  | nil => split <;> rfl
  | cons entry rest ih =>
    have hany : (keys.any fun key' ↦ entry.1.isSame (.text key')) = true ↔
        ∃ key' ∈ keys, entry.1 = .text key' := by
      simp only [List.any_eq_true, isSame_text_iff]
    rw [mapFields, List.map_cons]
    by_cases hentry : entry.1 = .text key
    · rw [field?_cons_of_eq hentry]
      by_cases hkey : key ∈ keys
      · rw [if_pos (hany.mpr ⟨key, hkey, hentry⟩), if_pos hkey]
        exact field?_cons_of_eq hentry
      · have hother : ¬∃ key' ∈ keys, entry.1 = .text key' := by
          rintro ⟨key', hkey', h⟩
          obtain rfl := Document.text.inj (hentry.symm.trans h)
          exact hkey hkey'
        rw [if_neg (mt hany.mp hother), if_neg hkey]
        exact field?_cons_of_eq hentry
    · rw [field?_cons_of_ne hentry, ← ih]
      split
      · exact field?_cons_of_ne hentry
      · exact field?_cons_of_ne hentry

/-- Next to a value that is put under a key, the other keys find what they found before. -/
theorem field?_insert {key key' : String} {value : Document} :
    field? key (insert entries (.text key') value)
      = if key = key' then some value else field? key entries := by
  have hreplace : (entries.map fun entry ↦
      if entry.1.isSame (.text key') then (entry.1, value) else entry)
        = mapFields [key'] (fun _ ↦ value) entries := by
    simp only [mapFields, List.any_cons, List.any_nil, Bool.or_false]
  rw [insert, hreplace, any_isSame_text]
  by_cases hfound : (field? key' entries).isSome = true
  · obtain ⟨old, hold⟩ := Option.isSome_iff_exists.mp hfound
    rw [if_pos hfound, field?_mapFields]
    by_cases hkey : key = key'
    · rw [if_pos (List.mem_singleton.mpr hkey), if_pos hkey, hkey, hold, Option.map_some]
    · rw [if_neg (mt List.mem_singleton.mp hkey), if_neg hkey]
  · rw [if_neg hfound, field?_append]
    by_cases hkey : key = key'
    · rw [if_pos hkey, hkey, Option.not_isSome_iff_eq_none.mp hfound, Option.none_or,
        field?_cons_of_eq rfl]
    · rw [if_neg hkey, field?_cons_of_ne fun h ↦ hkey (Document.text.inj h).symm]
      exact Option.or_none

/-! ## Other colours -/

/-- The entries of a section; one that cannot be read has none. -/
def sectionEntries (store : Store) (key : String) (entries : Entries) : Entries :=
  match section? store key entries with
  | .ok found => found
  | .error _ => []

/-- The document with a text for one of its colours. -/
def withColor (store : Store) (k : ColorKey) (s : String) (document : Document) : Document :=
  let entries := (Config.rootEntries? store document).getD []
  mapping (insert entries (.text "preview")
    (mapping (insert (sectionEntries store "preview" entries) (.text k.name) (.text s))))

/-- A colour in the form in which it is kept, if it is one. -/
def normalColor (store : Store) (value : Document) : Document :=
  match (value.resolve store).toColor? with
  | .ok color => .text color
  | .error _ => value

def colorKeys : List String := [ColorKey.rapid, .feed, .bounds, .origin].map ColorKey.name

/-- A section with its colours in the form in which they are kept. -/
def normalSection (store : Store) (value : Document) : Document :=
  match value.entries? store with
  | some found => mapping (mapFields colorKeys (normalColor store) found)
  | none => value

/-- The document with its colours in the form in which they are kept. -/
def normalColors (store : Store) (document : Document) : Document :=
  match Config.rootEntries? store document with
  | some entries => mapping (mapFields ["preview"] (normalSection store) entries)
  | none => document

end Document

/-! ## Sections with values replaced -/

section sections

variable {entries' found : Entries} {value : Document} {key : String}

theorem section?_congr (h : field? key entries' = field? key entries) : section? store key entries'
    = section? store key entries := by
  rw [section?, h, section?]

theorem section?_eq_ok (hvalue : field? key entries = some value)
    (hfound : value.entries? store = some found) : section? store key entries = .ok found := by
  have hresolve : value.resolve store = mapping found := by
    rw [entries?] at hfound
    split at hfound
    · next h => rw [h, Option.some.inj hfound]
    · cases hfound
  rw [section?, hvalue]
  simp only [hresolve, hfound]
  cases found with
  | nil => rfl
  | cons entry rest => rfl

theorem colorField?_eq_ok_iff {otherwise color : String} :
    colorField? store key otherwise entries = .ok color ↔
      (field? key entries = none ∧ otherwise = color) ∨
        ∃ value, field? key entries = some value ∧ (value.resolve store).toColor? = .ok color := by
  rw [colorField?]
  rcases field? key entries with _ | value
  · simp only [Except.ok.injEq, true_and, reduceCtorEq, false_and, exists_false, or_false]
  · simp only [mapError_eq_ok_iff, reduceCtorEq, false_and, Option.some.injEq, exists_eq_left',
      false_or]

end sections

/-- What is accepted as a colour is kept in the form of colours. -/
theorem exists_isNormalColor_of_toColor? {value : Document} {color : String}
    (h : value.toColor? = .ok color) : ∃ n, IsNormalColor color n := by
  cases value
  case text s =>
    obtain ⟨digits, hdigits, rfl⟩ := toColor?_text_eq_ok_iff.mp h
    exact ⟨_, hdigits.isNormalColor⟩
  all_goals cases h

theorem resolve_normalColor {value : Document} :
    ((normalColor store value).resolve store).toColor? = (value.resolve store).toColor? := by
  rw [normalColor]
  split
  · next color h =>
    obtain ⟨_, hnormal⟩ := exists_isNormalColor_of_toColor? h
    rw [h]
    exact hnormal.toColor?_eq
  · rfl

theorem ColorKey.name_mem (k : ColorKey) : k.name ∈ colorKeys := by
  cases k <;> decide

theorem ColorKey.name_injective : Function.Injective ColorKey.name := by
  intro j k h
  cases j <;> cases k <;> revert h <;> decide

namespace PreviewStyle

variable {entries' : Entries} {p p' : PreviewStyle} {k : ColorKey} {s color : String}

/-- A style is read of its colours and of what stands under other keys. -/
theorem ofEntries?_congr
    (hother : ∀ key, key ∉ colorKeys → field? key entries' = field? key entries)
    (hcolor : ∀ (k : ColorKey) otherwise,
      colorField? store k.name otherwise entries' = colorField? store k.name otherwise entries) :
    ofEntries? store entries' = ofEntries? store entries := by
  have hrapid := hcolor .rapid
  have hfeed := hcolor .feed
  have hbounds := hcolor .bounds
  have horigin := hcolor .origin
  simp only [ColorKey.name] at hrapid hfeed hbounds horigin
  simp only [ofEntries?, wholeField?, quantityField?, wholeQuantityField?, realField?, hrapid,
    hfeed, hbounds, horigin, hother "width_px" (by decide), hother "height_px" (by decide),
    hother "padding_px" (by decide), hother "dpi" (by decide),
    hother "rapid_line_width" (by decide), hother "feed_line_width" (by decide)]

theorem ofEntries?_mapFields : ofEntries? store (mapFields colorKeys (normalColor store) entries)
    = ofEntries? store entries := by
  refine ofEntries?_congr (fun key hkey ↦ ?_) fun k otherwise ↦ ?_
  · rw [field?_mapFields, if_neg hkey]
  · rw [colorField?, field?_mapFields, if_pos k.name_mem, colorField?]
    rcases field? k.name entries with _ | value
    · rfl
    · simp only [Option.map_some, resolve_normalColor]

/-- The style with another text for one of its colours. -/
def withColor (p : PreviewStyle) (k : ColorKey) (color : String) : PreviewStyle :=
  match k with
  | .rapid => { p with rapidColor := color }
  | .feed => { p with feedColor := color }
  | .bounds => { p with boundsColor := color }
  | .origin => { p with originColor := color }

theorem color_withColor (j : ColorKey) :
    (p.withColor k color).color j = if j = k then color else p.color j := by
  cases j <;> cases k <;> rfl

theorem IsGiven.withColor (h : IsGiven store entries p)
    (hcolor : (Document.text s).toColor? = .ok color) :
    IsGiven store (insert entries (.text k.name) (.text s)) (p.withColor k color) := by
  have hfield (key : String) (hkey : key ∉ colorKeys) :
      field? key (insert entries (.text k.name) (.text s)) = field? key entries := by
    rw [field?_insert, if_neg]
    rintro rfl
    exact hkey k.name_mem
  refine ⟨?_, ?_, ?_, ?_, ?_, ?_, fun j ↦ ?_, ?_, ?_⟩
  · rw [wholeField?, hfield "width_px" (by decide)]
    cases k <;> exact h.width
  · rw [wholeField?, hfield "height_px" (by decide)]
    cases k <;> exact h.height
  · rw [quantityField?, hfield "padding_px" (by decide)]
    cases k <;> exact h.padding
  · rw [wholeQuantityField?, hfield "dpi" (by decide)]
    cases k <;> exact h.dpi
  · rw [realField?, hfield "rapid_line_width" (by decide)]
    cases k <;> exact h.rapidWidth
  · rw [realField?, hfield "feed_line_width" (by decide)]
    cases k <;> exact h.feedWidth
  · rw [colorField?_eq_ok_iff, field?_insert, color_withColor]
    by_cases hj : j = k
    · rw [if_pos (congrArg ColorKey.name hj), if_pos hj]
      exact .inr ⟨_, rfl, hcolor⟩
    · rw [if_neg (ColorKey.name_injective.ne hj), if_neg hj, ← colorField?_eq_ok_iff]
      exact h.color j
  · cases k <;> exact h.size
  · cases k <;> exact h.resolution

/-- A style with another text for a colour is accepted when the text is a colour. -/
theorem ofEntries?_insert_eq_ok_iff (h : ofEntries? store entries = .ok p) :
    ofEntries? store (insert entries (.text k.name) (.text s)) = .ok p' ↔
      ∃ color, (Document.text s).toColor? = .ok color ∧ p' = p.withColor k color := by
  rw [ofEntries?_eq_ok_iff] at h
  constructor
  · intro h'
    have hcolor : (Document.text s).toColor? = .ok (p'.color k) := by
      have hgiven := (ofEntries?_eq_ok_iff.mp h').color k
      rw [colorField?_eq_ok_iff, field?_insert, if_pos rfl] at hgiven
      rcases hgiven with ⟨⟨⟩, -⟩ | ⟨_, ⟨⟩, hgiven⟩
      exact hgiven
    refine ⟨_, hcolor, ?_⟩
    exact Except.ok.inj (h'.symm.trans (ofEntries?_eq_ok_iff.mpr (h.withColor hcolor)))
  · rintro ⟨color, hcolor, rfl⟩
    exact ofEntries?_eq_ok_iff.mpr (h.withColor hcolor)

end PreviewStyle

namespace Config

variable {profile? : Option String} {document : Document} {c c' : Config}

/-! ## Documents with values replaced -/

theorem ofDocument?_mapping :
    ofDocument? store profile? (.mapping entries) = ofRoot? store profile? entries := by
  have hroot : rootEntries? store (.mapping entries) = some entries := by
    cases entries <;> rfl
  rw [ofDocument?_eq, hroot]

theorem selectedLaser?_congr_of_ne_preview {entries' : Entries}
    (h : ∀ key, key ≠ "preview" → field? key entries' = field? key entries) :
    selectedLaser? store profile? entries' = selectedLaser? store profile? entries := by
  refine selectedLaser?_congr fun key hkey ↦ h key ?_
  rintro rfl
  exact absurd hkey (by decide)

theorem layout_congr_of_ne_preview {entries' : Entries}
    (h : ∀ key, key ≠ "preview" → field? key entries' = field? key entries) :
    Layout.ofRoot? store entries' = Layout.ofRoot? store entries := by
  rw [Layout.ofRoot?, section?_congr (h "engraving" (by decide)), Layout.ofRoot?]

/-- Nothing changes when all colours are put in the form in which they are kept. -/
theorem ofDocument?_normalColors : ofDocument? store profile? (document.normalColors store)
    = ofDocument? store profile? document := by
  rw [normalColors]
  rcases hentries : rootEntries? store document with _ | entries
  · rfl
  have hother (key : String) (hkey : key ≠ "preview") :
      field? key (mapFields ["preview"] (normalSection store) entries) = field? key entries := by
    rw [field?_mapFields, if_neg (mt List.mem_singleton.mp hkey)]
  have hpreview : PreviewStyle.ofRoot? store (mapFields ["preview"] (normalSection store) entries)
      = PreviewStyle.ofRoot? store entries := by
    have hfield : field? "preview" (mapFields ["preview"] (normalSection store) entries)
        = (field? "preview" entries).map (normalSection store) := by
      rw [field?_mapFields, if_pos List.mem_cons_self]
    rcases hvalue : field? "preview" entries with _ | value
    · rw [hvalue] at hfield
      rw [PreviewStyle.ofRoot?, section?_congr (hfield.trans hvalue.symm), PreviewStyle.ofRoot?]
    rw [hvalue, Option.map_some, normalSection] at hfield
    rcases hfound : value.entries? store with _ | found
    · simp only [hfound] at hfield
      rw [PreviewStyle.ofRoot?, section?_congr (hfield.trans hvalue.symm), PreviewStyle.ofRoot?]
    · simp only [hfound] at hfield
      rw [PreviewStyle.ofRoot?, PreviewStyle.ofRoot?, section?_eq_ok hfield rfl, ok_bind]
      rw [section?_eq_ok hvalue hfound]
      exact PreviewStyle.ofEntries?_mapFields
  simp only
  rw [ofDocument?_mapping, ofDocument?_eq, hentries]
  simp only [ofRoot?, selectedLaser?_congr_of_ne_preview hother, layout_congr_of_ne_preview hother,
    hpreview]

/-- The configuration with another text for one of its colours. -/
def withColor (c : Config) (k : ColorKey) (color : String) : Config :=
  { c with preview := c.preview.withColor k color }

/-- An accepted document with another text for a colour is accepted when the text is a colour. -/
theorem ofDocument?_withColor_eq_ok_iff (h : ofDocument? store profile? document = .ok c)
    (k : ColorKey) (s : String) :
    ofDocument? store profile? (document.withColor store k s) = .ok c' ↔
      ∃ color, (Document.text s).toColor? = .ok color ∧ c' = c.withColor k color := by
  obtain ⟨entries, hentries, hlaser, hlayout, hpreview⟩ := ofDocument?_eq_ok_iff.mp h
  obtain ⟨found, hfound, hstyle⟩ := bind_eq_ok_iff.mp hpreview
  have hdocument : document.withColor store k s = .mapping (insert entries (.text "preview")
      (.mapping (insert found (.text k.name) (.text s)))) := by
    rw [Document.withColor, hentries, Option.getD_some, sectionEntries, hfound]
  -- All other sections are looked up as before.
  have hother (key : String) (hkey : key ≠ "preview") : field? key (insert entries
      (.text "preview") (.mapping (insert found (.text k.name) (.text s))))
        = field? key entries := by
    rw [field?_insert, if_neg hkey]
  have hpreview : field? "preview" (insert entries (.text "preview")
      (.mapping (insert found (.text k.name) (.text s))))
        = some (.mapping (insert found (.text k.name) (.text s))) :=
    field?_insert.trans (if_pos rfl)
  rw [hdocument, ofDocument?_mapping, ofRoot?_eq_ok_iff,
    selectedLaser?_congr_of_ne_preview hother, layout_congr_of_ne_preview hother, hlaser, hlayout,
    PreviewStyle.ofRoot?, section?_eq_ok hpreview rfl, ok_bind,
    PreviewStyle.ofEntries?_insert_eq_ok_iff hstyle]
  constructor
  · rintro ⟨hl, hlay, color, hcolor, hp⟩
    refine ⟨color, hcolor, ?_⟩
    rcases c' with ⟨laser, layout, preview⟩
    obtain rfl := Except.ok.inj hl
    obtain rfl := Except.ok.inj hlay
    obtain rfl := hp
    rfl
  · rintro ⟨color, hcolor, rfl⟩
    exact ⟨rfl, rfl, color, hcolor, rfl⟩

/-! ## Accepted configurations -/

/-- The numbers of a configuration lie in their ranges, and its colours are in the form in which
colours are kept. -/
structure IsSound (c : Config) : Prop where
  power : 0 ≤ c.laser.maxPower ∧ c.laser.maxPower ≤ 100
  units : 0 ≤ c.laser.maxPowerUnits ∧ c.laser.maxPowerUnits ≤ 1000
  feedRate : 1 ≤ c.laser.feedRate
  width : 1 ≤ c.preview.width
  height : 1 ≤ c.preview.height
  dpi : ∃ n : ℤ, c.preview.dpi = .whole n ∧ 1 ≤ n
  color (k : ColorKey) : ∃ n, IsNormalColor (c.preview.color k) n

theorem isNormalColor_standard (k : ColorKey) :
    ∃ n, IsNormalColor (({} : PreviewStyle).color k) n := by
  have hcolor :
      (text (({} : PreviewStyle).color k)).toColor? = .ok (({} : PreviewStyle).color k) := by
    cases k <;> decide +kernel
  exact exists_isNormalColor_of_toColor? hcolor

theorem isSound (h : ofDocument? store profile? document = .ok c) : c.IsSound := by
  obtain ⟨entries, -, hlaser, -, hpreview⟩ := ofDocument?_eq_ok_iff.mp h
  obtain ⟨_, _, -, hlaser⟩ := selectedLaser?_eq_ok_iff.mp hlaser
  obtain ⟨_, -, hlaser⟩ := Laser.ofDocument?_eq_ok_iff.mp hlaser
  obtain ⟨_, -, hstyle⟩ := bind_eq_ok_iff.mp hpreview
  have hpreview := PreviewStyle.ofEntries?_eq_ok_iff.mp hstyle
  obtain ⟨hpower, hpower'⟩ := hlaser.power_mem
  obtain ⟨n, hpos, hn⟩ := (isPlain_of_ofDocument? h).dpi
  refine ⟨hlaser.power_mem, ?_, hlaser.feedRate_pos, hpreview.size.1, hpreview.size.2,
    ⟨n, hn, hpos⟩, fun k ↦ ?_⟩
  · rw [Laser.maxPowerUnits]
    omega
  · rcases colorField?_eq_ok_iff.mp (hpreview.color k) with ⟨-, hstandard⟩ | ⟨_, -, hcolor⟩
    · rw [← hstandard]
      exact isNormalColor_standard k
    · exact exists_isNormalColor_of_toColor? hcolor

/-- **What an accepted document comes to.** Its numbers lie in their ranges and its colours are in
one form. Another text for a colour is accepted exactly when it has six hexadecimal digits in it,
apart from the blanks around them and a hash sign; nothing but the colour changes then, and its
digits keep their value. In the form in which they are kept, the colours of the document give the
same configuration. -/
theorem isSound_and_recolored (h : ofDocument? store profile? document = .ok c) :
    c.IsSound ∧
      (∀ k s c', ofDocument? store profile? (document.withColor store k s) = .ok c' ↔
        ∃ digits, IsColorText s.toList digits ∧ IsNormalColor (colorOf digits) (hexValue digits) ∧
          c' = c.withColor k (colorOf digits)) ∧
      ofDocument? store profile? (document.normalColors store) = .ok c := by
  refine ⟨isSound h, fun k s c' ↦ ?_, ofDocument?_normalColors.trans h⟩
  rw [ofDocument?_withColor_eq_ok_iff h]
  simp only [toColor?_text_eq_ok_iff]
  constructor
  · rintro ⟨_, ⟨digits, hdigits, rfl⟩, hc⟩
    exact ⟨digits, hdigits, hdigits.isNormalColor, hc⟩
  · rintro ⟨digits, hdigits, -, hc⟩
    exact ⟨_, ⟨digits, hdigits, rfl⟩, hc⟩

/-- A document with a colour that is not in the form of colours. -/
def paleDocument : Document := .mapping [
  (.text "laser", .mapping [
    (.text "max_power_percent", .whole 80), (.text "feed_rate_mm_min", .whole 1200)]),
  (.text "preview", .mapping [(.text "rapid_color", .text " 00abcd\n")])]

theorem isSound_and_recolored_paleDocument :
    ∃ c, ofDocument? #[] none paleDocument = .ok c ∧ c.IsSound ∧
      c.preview.rapidColor = "#00ABCD" ∧
      ofDocument? #[] none (paleDocument.withColor #[] .feed "#0fA9bc")
        = .ok (c.withColor .feed "#0FA9BC") ∧
      (∀ c', ofDocument? #[] none (paleDocument.withColor #[] .feed "# 0fA9bc") ≠ .ok c') ∧
      ofDocument? #[] none (paleDocument.normalColors #[]) = .ok c := by
  have hresult : (match ofDocument? #[] none paleDocument with
      | .ok c => decide (c.preview.rapidColor = "#00ABCD")
      | .error _ => false) = true := by decide +kernel
  rcases h : ofDocument? #[] none paleDocument with e | c
  · rw [h] at hresult
    cases hresult
  rw [h] at hresult
  obtain ⟨hsound, hrecolored, hnormal⟩ := isSound_and_recolored h
  refine ⟨c, rfl, hsound, of_decide_eq_true hresult, ?_, fun c' hc' ↦ ?_, hnormal⟩
  · have hall : ['0', 'f', 'A', '9', 'b', 'c'].all isHexDigit = true := by decide +kernel
    have hhex (d : Char) (hd : d ∈ ['0', 'f', 'A', '9', 'b', 'c']) : IsHex d :=
      isHexDigit_iff.mp (List.all_eq_true.mp hall d hd)
    have hdigits : IsColorText "#0fA9bc".toList ['0', 'f', 'A', '9', 'b', 'c'] :=
      isColorText_iff.mpr ⟨by decide +kernel, rfl, hhex⟩
    have hcolor : "#0FA9BC" = colorOf ['0', 'f', 'A', '9', 'b', 'c'] := by decide +kernel
    rw [hcolor]
    exact (hrecolored .feed _ _).mpr ⟨_, hdigits, hdigits.isNormalColor, rfl⟩
  · obtain ⟨digits, hdigits, -⟩ := (hrecolored .feed _ c').mp hc'
    obtain ⟨rfl, -, hhex⟩ := isColorText_iff.mp hdigits
    exact absurd (hhex ' ' (by decide +kernel)) (by decide)

end Config

end Engraving
