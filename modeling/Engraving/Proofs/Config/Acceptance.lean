import Engraving.Proofs.Config.StrayDocument
import Engraving.Proofs.Preview.Size

/-!
# Documents that are accepted

Each part of a configuration is read by a chain of steps, and it has come out of the chain exactly
when every step gave a result. So for every part there is a list of what was read under which key
and of the rules that were kept. The parts of a document do not depend on each other.
-/

namespace Engraving

open Document

variable {α β : Type} {store : Store} {entries : Entries}

/-- What comes after a rule that is checked in passing. -/
theorem throw_if_bind_eq_ok_iff {p : Prop} [Decidable p] {e : α} {next : PUnit → Except α β}
    {b : β} : (if p then Except.error e >>= next else next ⟨⟩) = .ok b ↔ ¬p ∧ next ⟨⟩ = .ok b := by
  by_cases hp : p
  · rw [if_pos hp]
    exact iff_of_false nofun fun h ↦ h.1 hp
  · rw [if_neg hp, and_iff_right hp]

theorem required?_bind_eq_ok_iff {key : String} {f : Document → Except DocumentError α} {a : α} :
    (required? key entries >>= f) = .ok a ↔
      ∃ value, field? key entries = some value ∧ f value = .ok a := by
  rw [required?]
  rcases field? key entries with _ | value
  · exact iff_of_false (by rintro ⟨⟩) (by rintro ⟨_, ⟨⟩, -⟩)
  · exact ⟨fun h ↦ ⟨value, rfl, h⟩, by rintro ⟨_, ⟨⟩, h⟩; exact h⟩

/-- An integer that has to be there and inside of a range. -/
theorem checkedWhole?_bind_eq_ok_iff {key : String} {inside : ℤ → Prop} [DecidablePred inside]
    {rule : ℤ → ConfigError} {f : ℤ → Except DocumentError α} {a : α} :
    (do
      let n ← (← required? key entries).toWhole?.mapError .conversion
      unless inside n do refuseWhole rule n
      f n) = .ok a ↔ ∃ n, HasWhole entries key n ∧ inside n ∧ f n = .ok a := by
  have hcheck (n : ℤ) :
      (if inside n then f n else refuseWhole rule n >>= fun _ ↦ f n) = .ok a ↔
        inside n ∧ f n = .ok a := by
    by_cases hn : inside n
    · rw [if_pos hn, and_iff_right hn]
    · rw [if_neg hn, bind_eq_ok_iff]
      exact iff_of_false (fun ⟨_, h, _⟩ ↦ refuseWhole_ne_ok h) fun h ↦ hn h.1
  rw [required?_bind_eq_ok_iff]
  simp only [bind_eq_ok_iff, mapError_eq_ok_iff]
  constructor
  · rintro ⟨value, hvalue, n, hn, h⟩
    exact ⟨n, ⟨value, hvalue, hn⟩, (hcheck n).mp h⟩
  · rintro ⟨n, ⟨value, hvalue, hn⟩, h⟩
    exact ⟨value, hvalue, n, hn, (hcheck n).mpr h⟩

/-! ## Lasers -/

namespace Laser

/-- What a laser is called: its name is written, or else the key that it stands under. -/
def name? (store : Store) (key? : Option Document) (settings : Entries) :
    Except NumberError String :=
  match nameValue? key? settings with
  | some value => value.plainText? store
  | none => .ok "Laser"

/-- The settings of a laser that is accepted. -/
structure IsGiven (store : Store) (key? : Option Document) (settings : Entries) (l : Laser) :
    Prop where
  power : HasWhole settings "max_power_percent" l.maxPower
  power_mem : 0 ≤ l.maxPower ∧ l.maxPower ≤ 100
  feedRate : HasWhole settings "feed_rate_mm_min" l.feedRate
  feedRate_pos : 0 < l.feedRate
  name : name? store key? settings = .ok l.name

variable {key? : Option Document} {settings : Entries} {l : Laser}

theorem named?_eq {maxPower feedRate : ℤ} : named? store key? settings maxPower feedRate = (do
    let name ← (name? store key? settings).mapError fun e ↦ .conversion (.number e)
    return { name, maxPower, feedRate }) := by
  rw [named?, name?, nameValue?]
  rcases field? "name" settings with _ | value
  · rw [Option.none_or]
    rcases key?.filter isTruthy with _ | key
    · rfl
    · rfl
  · rfl

theorem named?_eq_ok_iff {maxPower feedRate : ℤ} :
    named? store key? settings maxPower feedRate = .ok l ↔
      ∃ name, name? store key? settings = .ok name ∧ l = { name, maxPower, feedRate } := by
  rw [named?_eq, bind_eq_ok_iff]
  simp only [mapError_eq_ok_iff]
  exact exists_congr fun name ↦ and_congr_right' ⟨fun h ↦ (Except.ok.inj h).symm, fun h ↦ h ▸ rfl⟩

theorem ofDocument?_eq_ok_iff {document : Document} :
    ofDocument? store key? document = .ok l ↔
      ∃ settings, document.entries? store = some settings ∧ IsGiven store key? settings l := by
  rcases hsettings : document.entries? store with _ | settings
  · rw [ofDocument?, hsettings]
    exact iff_of_false (by rintro ⟨⟩) (by rintro ⟨_, ⟨⟩, -⟩)
  rw [ofDocument?_eq hsettings]
  refine (checkedWhole?_bind_eq_ok_iff (f := rated? store key? settings)).trans ?_
  have hrated (maxPower : ℤ) : rated? store key? settings maxPower = .ok l ↔
      ∃ feedRate, HasWhole settings "feed_rate_mm_min" feedRate ∧ 0 < feedRate ∧
        named? store key? settings maxPower feedRate = .ok l :=
    checkedWhole?_bind_eq_ok_iff (f := named? store key? settings maxPower)
  simp only [hrated, named?_eq_ok_iff, Bool.and_eq_true, decide_eq_true_iff]
  constructor
  · rintro ⟨maxPower, hpower, hmem, feedRate, hrate, hpos, name, hname, rfl⟩
    exact ⟨settings, rfl, hpower, hmem, hrate, hpos, hname⟩
  · rintro ⟨_, ⟨⟩, h⟩
    exact ⟨_, h.power, h.power_mem, _, h.feedRate, h.feedRate_pos, _, h.name, rfl⟩

end Laser

section selected

variable {profile? : Option String} {lasers : Entries} {l : Laser}

theorem laserAmong?_eq_ok_iff : laserAmong? store profile? entries lasers = .ok l ↔
    ∃ key laser, selectedKey? store profile? (field? "default_laser" entries) lasers = .ok key ∧
      lookup? key lasers = some laser ∧ Laser.ofDocument? store (some key) laser = .ok l := by
  rw [laserAmong?, bind_eq_ok_iff]
  refine exists_congr fun key ↦ ?_
  rw [exists_and_left]
  refine and_congr_right' ?_
  rcases lookup? key lasers with _ | laser
  · refine iff_of_false (fun h ↦ ?_) (by rintro ⟨_, ⟨⟩, -⟩)
    obtain ⟨_, -, ⟨⟩⟩ := bind_eq_ok_iff.mp h
  · exact ⟨fun h ↦ ⟨laser, rfl, h⟩, by rintro ⟨_, ⟨⟩, h⟩; exact h⟩

theorem selectedLaser?_eq_ok_iff : selectedLaser? store profile? entries = .ok l ↔
    ∃ key? laser, Selects store profile? entries key? laser ∧
      Laser.ofDocument? store key? laser = .ok l := by
  by_cases hgiven : ∃ lasers, HasLasers store entries lasers
  · obtain ⟨lasers, given⟩ := hgiven
    rw [selectedLaser?_eq_of_hasLasers given, laserAmong?_eq_ok_iff]
    constructor
    · rintro ⟨key, laser, hkey, hlaser, h⟩
      exact ⟨some key, laser, .among given hkey hlaser, h⟩
    · rintro ⟨_, _, ⟨halone, -, -⟩ | ⟨given', hkey, hlaser⟩, h⟩
      · exact absurd halone given.field?_ne_none
      · obtain rfl := given.unique given'
        exact ⟨_, _, hkey, hlaser, h⟩
  -- No lasers are given, so one laser has to stand by itself, and none may be asked for.
  rw [selectedLaser?]
  rcases hvalue : field? "lasers" entries with _ | value
  · rcases profile? with _ | name
    · refine required?_bind_eq_ok_iff.trans ⟨?_, ?_⟩
      · rintro ⟨laser, hlaser, h⟩
        exact ⟨none, laser, .single hvalue rfl hlaser, h⟩
      · rintro ⟨_, _, ⟨-, -, hlaser⟩ | ⟨given, -, -⟩, h⟩
        · exact ⟨_, hlaser, h⟩
        · exact absurd ⟨_, given⟩ hgiven
    · refine iff_of_false (by rintro ⟨⟩) ?_
      rintro ⟨_, _, ⟨-, ⟨⟩, -⟩ | ⟨given, -, -⟩, -⟩
      exact hgiven ⟨_, given⟩
  · refine iff_of_false ?_ ?_
    · rcases hentries : value.entries? store with _ | _ | ⟨first, rest⟩
      · simp only [hentries]
        rintro ⟨⟩
      · simp only [hentries]
        rintro ⟨⟩
      · exact absurd ⟨first :: rest, List.cons_ne_nil _ _, value, hvalue, hentries⟩ hgiven
    · rintro ⟨_, _, ⟨halone, -, -⟩ | ⟨given, -, -⟩, -⟩
      · rw [hvalue] at halone
        cases halone
      · exact hgiven ⟨_, given⟩

/-- Nothing but the entries for lasers is looked at when a laser is selected. -/
theorem selectedLaser?_congr {entries' : Entries}
    (h : ∀ key ∈ ["lasers", "default_laser", "laser"], field? key entries' = field? key entries) :
    selectedLaser? store profile? entries' = selectedLaser? store profile? entries := by
  simp only [List.forall_mem_cons] at h
  obtain ⟨hlasers, hdefault, hlaser, -⟩ := h
  simp only [selectedLaser?, required?, hlasers, hdefault, hlaser]

end selected

/-! ## Sections -/

/-- The layout that is read from the entries of a section, and the rule that it keeps. -/
structure Layout.IsGiven (store : Store) (entries : Entries) (l : Layout) : Prop where
  width : realField? "width_mm" 30 entries = .ok l.width
  height : realField? "height_mm" 30 entries = .ok l.height
  startX : realField? "start_x_mm" 0 entries = .ok l.startX
  startY : realField? "start_y_mm" 0 entries = .ok l.startY
  invert : flagField store "invert" false entries = l.invert
  coalesce : flagField store "coalesce_power_runs" false entries = l.coalesce
  /-- The size is not seen to be zero or less. -/
  size : ¬(decide (l.width ≤ 0) || decide (l.height ≤ 0)) = true

theorem Layout.ofEntries?_eq_ok_iff {l : Layout} :
    ofEntries? store entries = .ok l ↔ IsGiven store entries l := by
  constructor
  · intro h
    obtain ⟨width, hwidth, h⟩ := bind_eq_ok_iff.mp h
    obtain ⟨height, hheight, h⟩ := bind_eq_ok_iff.mp h
    obtain ⟨startX, hstartX, h⟩ := bind_eq_ok_iff.mp h
    obtain ⟨startY, hstartY, h⟩ := bind_eq_ok_iff.mp h
    obtain ⟨hsize, h⟩ := of_error_if h
    cases h
    exact ⟨hwidth, hheight, hstartX, hstartY, rfl, rfl, hsize⟩
  · rintro ⟨hwidth, hheight, hstartX, hstartY, hinvert, hcoalesce, hsize⟩
    refine bind_eq_ok_iff.mpr ⟨_, hwidth, bind_eq_ok_iff.mpr ⟨_, hheight, bind_eq_ok_iff.mpr
      ⟨_, hstartX, bind_eq_ok_iff.mpr ⟨_, hstartY, throw_if_bind_eq_ok_iff.mpr ⟨hsize, ?_⟩⟩⟩⟩⟩
    rw [hinvert, hcoalesce]
    rfl

theorem Document.exists_real_of_quantityField? {key : String} {x : Float} {q : Quantity}
    (h : quantityField? key (.real x) entries = .ok q) : ∃ y, q = .real y := by
  rw [quantityField?] at h
  split at h
  · next value _ =>
    rcases hvalue : value.toReal? with _ | y <;> rw [hvalue] at h <;> cases h
    exact ⟨y, rfl⟩
  · cases h
    exact ⟨x, rfl⟩

theorem Document.exists_whole_of_wholeQuantityField? {key : String} {n : ℤ} {q : Quantity}
    (h : wholeQuantityField? key (.whole n) entries = .ok q) : ∃ m, q = .whole m := by
  rw [wholeQuantityField?] at h
  split at h
  · next value _ =>
    rcases hvalue : value.toWhole? with _ | m <;> rw [hvalue] at h <;> cases h
    exact ⟨m, rfl⟩
  · cases h
    exact ⟨n, rfl⟩

/-- The colours of a style. -/
inductive ColorKey where
  | rapid
  | feed
  | bounds
  | origin
  deriving DecidableEq, Repr

/-- The key under which a document has the colour. -/
def ColorKey.name : ColorKey → String
  | rapid => "rapid_color"
  | feed => "feed_color"
  | bounds => "bounds_color"
  | origin => "origin_color"

namespace PreviewStyle

def color (s : PreviewStyle) : ColorKey → String
  | .rapid => s.rapidColor
  | .feed => s.feedColor
  | .bounds => s.boundsColor
  | .origin => s.originColor

/-- The style that is read from the entries of a section, and the rules that it keeps. -/
structure IsGiven (store : Store) (entries : Entries) (s : PreviewStyle) : Prop where
  width : wholeField? "width_px" 800 entries = .ok s.width
  height : wholeField? "height_px" 600 entries = .ok s.height
  padding : quantityField? "padding_px" (.real 40) entries = .ok s.padding
  dpi : wholeQuantityField? "dpi" (.whole 100) entries = .ok s.dpi
  rapidWidth : realField? "rapid_line_width" 0.5 entries = .ok s.rapidWidth
  feedWidth : realField? "feed_line_width" 1.5 entries = .ok s.feedWidth
  color (k : ColorKey) : colorField? store k.name (({} : PreviewStyle).color k) entries
    = .ok (s.color k)
  size : 0 < s.width ∧ 0 < s.height
  resolution : s.dpi.isNonpositive = false

theorem ofEntries?_eq_ok_iff {s : PreviewStyle} :
    ofEntries? store entries = .ok s ↔ IsGiven store entries s := by
  have hsize {width height : ℤ} :
      ¬(decide (width ≤ 0) || decide (height ≤ 0)) = true ↔ 0 < width ∧ 0 < height := by
    rw [Bool.or_eq_true, decide_eq_true_iff, decide_eq_true_iff, not_or, not_le, not_le]
  constructor
  · intro h
    obtain ⟨width, hwidth, h⟩ := bind_eq_ok_iff.mp h
    obtain ⟨height, hheight, h⟩ := bind_eq_ok_iff.mp h
    obtain ⟨padding, hpadding, h⟩ := bind_eq_ok_iff.mp h
    obtain ⟨dpi, hdpi, h⟩ := bind_eq_ok_iff.mp h
    obtain ⟨rapidWidth, hrapidWidth, h⟩ := bind_eq_ok_iff.mp h
    obtain ⟨feedWidth, hfeedWidth, h⟩ := bind_eq_ok_iff.mp h
    obtain ⟨rapid, hrapid, h⟩ := bind_eq_ok_iff.mp h
    obtain ⟨feed, hfeed, h⟩ := bind_eq_ok_iff.mp h
    obtain ⟨bounds, hbounds, h⟩ := bind_eq_ok_iff.mp h
    obtain ⟨origin, horigin, h⟩ := bind_eq_ok_iff.mp h
    obtain ⟨hpositive, h⟩ := of_error_if h
    obtain ⟨hresolution, h⟩ := of_error_if h
    cases h
    refine ⟨hwidth, hheight, hpadding, hdpi, hrapidWidth, hfeedWidth, fun k ↦ ?_,
      hsize.mp hpositive, Bool.eq_false_of_not_eq_true hresolution⟩
    cases k
    · exact hrapid
    · exact hfeed
    · exact hbounds
    · exact horigin
  · rintro ⟨hwidth, hheight, hpadding, hdpi, hrapidWidth, hfeedWidth, hcolor, hpositive,
      hresolution⟩
    refine bind_eq_ok_iff.mpr ⟨_, hwidth, bind_eq_ok_iff.mpr ⟨_, hheight, bind_eq_ok_iff.mpr
      ⟨_, hpadding, bind_eq_ok_iff.mpr ⟨_, hdpi, bind_eq_ok_iff.mpr ⟨_, hrapidWidth,
        bind_eq_ok_iff.mpr ⟨_, hfeedWidth, bind_eq_ok_iff.mpr ⟨_, hcolor .rapid,
          bind_eq_ok_iff.mpr ⟨_, hcolor .feed, bind_eq_ok_iff.mpr ⟨_, hcolor .bounds,
            bind_eq_ok_iff.mpr ⟨_, hcolor .origin, ?_⟩⟩⟩⟩⟩⟩⟩⟩⟩⟩
    exact throw_if_bind_eq_ok_iff.mpr ⟨hsize.mpr hpositive,
      throw_if_bind_eq_ok_iff.mpr ⟨Bool.not_eq_true _ ▸ hresolution, rfl⟩⟩

/-- A style that is read from a file has a float for its padding and a positive integer for its
resolution. -/
theorem IsGiven.isPlain {s : PreviewStyle} (h : IsGiven store entries s) : s.IsPlain := by
  obtain ⟨n, hn⟩ := exists_whole_of_wholeQuantityField? h.dpi
  refine ⟨exists_real_of_quantityField? h.padding, n, ?_, hn⟩
  have hpositive := h.resolution
  rw [hn] at hpositive
  simpa [Quantity.isNonpositive] using hpositive

end PreviewStyle

/-! ## Documents -/

namespace Config

variable {profile? : Option String} {document : Document} {c : Config}

theorem ofRoot?_eq_ok_iff : ofRoot? store profile? entries = .ok c ↔
    selectedLaser? store profile? entries = .ok c.laser ∧
      Layout.ofRoot? store entries = .ok c.layout ∧
        PreviewStyle.ofRoot? store entries = .ok c.preview := by
  simp only [ofRoot?, bind_eq_ok_iff]
  constructor
  · rintro ⟨laser, hlaser, layout, hlayout, preview, hpreview, h⟩
    cases h
    exact ⟨hlaser, hlayout, hpreview⟩
  · rintro ⟨hlaser, hlayout, hpreview⟩
    exact ⟨_, hlaser, _, hlayout, _, hpreview, rfl⟩

theorem ofDocument?_eq_ok_iff : ofDocument? store profile? document = .ok c ↔
    ∃ entries, rootEntries? store document = some entries ∧
      selectedLaser? store profile? entries = .ok c.laser ∧
        Layout.ofRoot? store entries = .ok c.layout ∧
          PreviewStyle.ofRoot? store entries = .ok c.preview := by
  rw [ofDocument?_eq]
  rcases rootEntries? store document with _ | entries
  · exact iff_of_false nofun (by rintro ⟨_, ⟨⟩, -⟩)
  · simp only [ofRoot?_eq_ok_iff, Option.some.injEq, exists_eq_left']

theorem isPlain_of_ofDocument? (h : ofDocument? store profile? document = .ok c) :
    c.preview.IsPlain := by
  obtain ⟨_, -, -, -, hpreview⟩ := ofDocument?_eq_ok_iff.mp h
  obtain ⟨_, -, hpreview⟩ := bind_eq_ok_iff.mp hpreview
  exact (PreviewStyle.ofEntries?_eq_ok_iff.mp hpreview).isPlain

/-- A file that is accepted holds a document that is accepted. -/
theorem exists_of_ofFile? [DocumentReader] {path : String}
    {content : Except FileError (List UInt8)} (h : ofFile? profile? path content = .ok c) :
    ∃ bytes document store, content = .ok bytes ∧
      DocumentReader.document? bytes = .ok (document, store) ∧
      ofDocument? store profile? document = .ok c := by
  rcases content with e | bytes
  · rcases e with _ | _ | _ | _ | _ | _ <;> cases h
  · obtain ⟨⟨document, store⟩, hread, h⟩ := bind_eq_ok_iff.mp h
    exact ⟨bytes, document, store, rfl, mapError_eq_ok_iff.mp hread, mapError_eq_ok_iff.mp h⟩

end Config

end Engraving
