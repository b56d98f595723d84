import Engraving.CommandLine.Run
import Engraving.Proofs.Config.StrayLaser
import Engraving.Proofs.Text.Utf8

/-!
# Documents that break no rule for configurations

A document is read section by section, and what it comes to is settled in the first section that is
not read: a rule is broken there, or the document strays. A file that holds a document which does
not stray gives a configuration or a broken rule.
-/

namespace Engraving

open Document

variable {α : Type} {store : Store} {entries : Entries}

/-! ## Sections -/

/-- What stands under the key counts as true, and if it is a mapping, its entries are such. -/
def HasStraySection (store : Store) (entries : Entries) (key : String) (p : Entries → Prop) :
    Prop :=
  ∃ value, field? key entries = some value ∧ (value.resolve store).isTruthy = true ∧
    ∀ found, value.entries? store = some found → p found

theorem strays_section?_bind_iff {key : String} {f : Entries → Except DocumentError α}
    {p : Entries → Prop} (hf : ∀ found, Strays (f found) ↔ p found) (hnone : ¬p []) :
    Strays (section? store key entries >>= f) ↔ HasStraySection store entries key p := by
  rw [section?, HasStraySection]
  rcases field? key entries with _ | value
  · exact iff_of_false (mt (hf []).mp hnone) (by rintro ⟨_, ⟨⟩, -⟩)
  simp only [Option.some.injEq, exists_eq_left']
  by_cases htruthy : (value.resolve store).isTruthy = true
  · rw [if_pos htruthy, and_iff_right htruthy]
    rcases value.entries? store with _ | found
    · exact iff_of_true (strays_error rfl) nofun
    · rw [ok_bind, hf]
      simp only [Option.some.injEq, forall_eq']
  · rw [if_neg htruthy]
    exact iff_of_false (mt (hf []).mp hnone) fun h ↦ htruthy h.1

def Layout.ofRoot? (store : Store) (entries : Entries) : Except DocumentError Layout := do
  Layout.ofEntries? store (← section? store "engraving" entries)

/-- The style of previews in a document. -/
def PreviewStyle.ofRoot? (store : Store) (entries : Entries) :
    Except DocumentError PreviewStyle := do
  PreviewStyle.ofEntries? store (← section? store "preview" entries)

theorem Layout.strays_ofRoot?_iff : Strays (ofRoot? store entries) ↔
    HasStraySection store entries "engraving" IsStray := by
  refine strays_section?_bind_iff (fun _ ↦ strays_ofEntries?_iff) ?_
  rintro ⟨key, -, _, _, ⟨⟩, -⟩

theorem PreviewStyle.strays_ofRoot?_iff : Strays (ofRoot? store entries) ↔
    HasStraySection store entries "preview" IsStray := by
  refine strays_section?_bind_iff (fun _ ↦ strays_ofEntries?_iff) ?_
  rintro (⟨key, -, _, _, ⟨⟩, -⟩ | ⟨key, -, _, _, ⟨⟩, -⟩)

/-! ## Documents -/

namespace Config

/-- How a document is refused although it breaks no rule. -/
inductive IsStray (store : Store) (profile? : Option String) (entries : Entries) : Prop
  | laser (stray : IsStrayLaser store profile? entries)
  /-- The layout is no mapping, or a length in it is no float. -/
  | layout {laser : Laser} (selected : selectedLaser? store profile? entries = .ok laser)
    (stray : HasStraySection store entries "engraving" Layout.IsStray)
  /-- The style of previews is no mapping, or a number in it is of no use. -/
  | preview {laser : Laser} {layout : Layout}
    (selected : selectedLaser? store profile? entries = .ok laser)
    (placed : Layout.ofRoot? store entries = .ok layout)
    (stray : HasStraySection store entries "preview" PreviewStyle.IsStray)

/-- The configuration in the entries of a document. -/
def ofRoot? (store : Store) (profile? : Option String) (entries : Entries) :
    Except DocumentError Config := do
  let laser ← selectedLaser? store profile? entries
  let layout ← Layout.ofRoot? store entries
  let preview ← PreviewStyle.ofRoot? store entries
  return { laser, layout, preview }

variable {profile? : Option String} {document : Document}

theorem strays_ofRoot?_iff :
    Strays (ofRoot? store profile? entries) ↔ IsStray store profile? entries := by
  have hsteps : Strays (ofRoot? store profile? entries) ↔
      Strays (selectedLaser? store profile? entries) ∨
        ∃ laser, selectedLaser? store profile? entries = .ok laser ∧
          (Strays (Layout.ofRoot? store entries) ∨
            ∃ layout, Layout.ofRoot? store entries = .ok layout ∧
              Strays (PreviewStyle.ofRoot? store entries)) := by
    rw [ofRoot?, strays_bind_iff]
    refine or_congr_right (exists_congr fun laser ↦ and_congr_right' (strays_bind_iff.trans ?_))
    exact or_congr_right (exists_congr fun layout ↦
      and_congr_right' (strays_bind_iff_left fun _ ↦ not_strays_ok))
  rw [hsteps, strays_selectedLaser?_iff, Layout.strays_ofRoot?_iff,
    PreviewStyle.strays_ofRoot?_iff]
  constructor
  · rintro (hlaser | ⟨laser, hselected, hlayout | ⟨layout, hplaced, hpreview⟩⟩)
    · exact .laser hlaser
    · exact .layout hselected hlayout
    · exact .preview hselected hplaced hpreview
  · rintro (hlaser | ⟨hselected, hlayout⟩ | ⟨hselected, hplaced, hpreview⟩)
    · exact .inl hlaser
    · exact .inr ⟨_, hselected, .inl hlayout⟩
    · exact .inr ⟨_, hselected, .inr ⟨_, hplaced, hpreview⟩⟩

/-- The entries of a document; one that counts as false has none. -/
def rootEntries? (store : Store) (document : Document) : Option Entries :=
  if (document.resolve store).isTruthy then (document.resolve store).entries? store else some []

/-- A document is refused when it is no mapping, and read part by part when it is. -/
theorem ofDocument?_eq : ofDocument? store profile? document =
    match rootEntries? store document with
    | some entries => ofRoot? store profile? entries
    | none => .error (.invalid .rootKind) := by
  have hroot (entries : Entries) : (do
      let laser ← selectedLaser? store profile? entries
      let layout ← Layout.ofEntries? store (← section? store "engraving" entries)
      let preview ← PreviewStyle.ofEntries? store (← section? store "preview" entries)
      return { laser, layout, preview }) = ofRoot? store profile? entries := by
    simp only [ofRoot?, Layout.ofRoot?, PreviewStyle.ofRoot?, bind_assoc]
  rw [ofDocument?, rootEntries?]
  by_cases htruthy : (document.resolve store).isTruthy = true
  · simp only [if_pos htruthy]
    rcases (document.resolve store).entries? store with _ | entries
    · rfl
    · exact hroot entries
  · simp only [if_neg htruthy, ok_bind, hroot]

theorem strays_ofDocument?_iff : Strays (ofDocument? store profile? document) ↔
    ∃ entries, rootEntries? store document = some entries ∧ IsStray store profile? entries := by
  rw [ofDocument?_eq]
  rcases rootEntries? store document with _ | entries
  · exact iff_of_false not_strays_invalid (by rintro ⟨_, ⟨⟩, -⟩)
  · simp only [strays_ofRoot?_iff, Option.some.injEq, exists_eq_left']

/-- A configuration is there, or a rule for configurations is broken. -/
def IsSettled (r : Except LoadError Config) : Prop :=
  (∃ c, r = .ok c) ∨ ∃ e rule, r = .error e ∧ e.configError? = some rule

theorem isSettled_mapError_iff {r : Except DocumentError Config} :
    IsSettled (r.mapError .document) ↔ ¬Strays r := by
  rcases r with e | c
  · cases e with
    | invalid rule => exact iff_of_true (.inr ⟨_, rule, rfl, rfl⟩) not_strays_invalid
    | _ =>
      exact iff_of_false (by rintro (⟨_, ⟨⟩⟩ | ⟨_, _, ⟨⟩, ⟨⟩⟩)) (not_not_intro (strays_error rfl))
  · exact iff_of_true (.inl ⟨c, rfl⟩) not_strays_ok

/-- **When a document is refused beyond the rules.** Whatever a document says and whichever laser is
asked for, there is a configuration or a rule for configurations is broken, unless the laser has a
name or settings that no rule can look at, or a later section is no mapping or has something else in
the place of a number. -/
theorem isSettled_iff [DocumentReader] (store : Store) (profile? : Option String)
    (document : Document) :
    (Strays (ofDocument? store profile? document) ↔
      ∃ entries, rootEntries? store document = some entries ∧ IsStray store profile? entries) ∧
    ∀ path bytes, DocumentReader.document? bytes = .ok (document, store) →
      (IsSettled (ofFile? profile? path (.ok bytes)) ↔ ¬∃ entries,
        rootEntries? store document = some entries ∧ IsStray store profile? entries) := by
  refine ⟨strays_ofDocument?_iff, fun path bytes hbytes ↦ ?_⟩
  rw [← strays_ofDocument?_iff, ← isSettled_mapError_iff, ofFile?, ofBytes?, hbytes]
  rfl

/-- A laser with a word for its power. -/
def wordyBytes : List UInt8 :=
  Utf8.encode "laser:\n  max_power_percent: full\n  feed_rate_mm_min: 1000".toList

theorem isSettled_iff_wordyBytes :
    ∃ document store, DocumentReader.document? wordyBytes = .ok (document, store) ∧
      ¬IsSettled (ofFile? none "laser.yaml" (.ok wordyBytes)) ∧
      ∃ entries, rootEntries? store document = some entries ∧ IsStray store none entries := by
  have hresult : (match ofFile? none "laser.yaml" (.ok wordyBytes) with
      | .ok _ => false
      | .error e => e.configError?.isNone) = true := by decide +kernel
  have hunsettled : ¬IsSettled (ofFile? none "laser.yaml" (.ok wordyBytes)) := by
    rintro (⟨c, h⟩ | ⟨e, rule, h, hrule⟩)
    · rw [h] at hresult
      cases hresult
    · simp only [h, hrule] at hresult
      cases hresult
  have hread : (DocumentReader.document? wordyBytes).toOption.isSome = true := by
    decide +kernel
  rcases h : DocumentReader.document? wordyBytes with e | ⟨document, store⟩
  · rw [h] at hread
    cases hread
  · have hsettled := (isSettled_iff store none document).2 "laser.yaml" wordyBytes h
    exact ⟨document, store, rfl, hunsettled, not_not.mp (mt hsettled.mpr hunsettled)⟩

end Config

end Engraving
