import Engraving.Config.Loading
import Engraving.Proofs.Except

/-!
# Failures that break no rule for configurations

A document that is no configuration has broken a rule for configurations, or it strays: a value is
met that has no form at which the rules could look. That a computation strays is followed here
through its steps. Most of them read a number under a key and break no rule, so whether the steps
after them stray is a question of its own.
-/

namespace Engraving

open Document

variable {α β : Type} {store : Store} {entries : Entries}

/-! ## Steps -/

/-- A document is refused, but breaks no rule for configurations. -/
def Strays (r : Except DocumentError α) : Prop :=
  ∃ e, r = .error e ∧ (LoadError.document e).configError? = none

theorem not_strays_ok {a : α} : ¬Strays (.ok a) := by
  rintro ⟨_, ⟨⟩, -⟩

theorem not_strays_invalid {rule : ConfigError} :
    ¬Strays (.error (.invalid rule) : Except DocumentError α) := by
  rintro ⟨_, ⟨⟩, ⟨⟩⟩

theorem strays_error {e : DocumentError} (h : (LoadError.document e).configError? = none) :
    Strays (.error e : Except DocumentError α) := ⟨e, rfl, h⟩

theorem strays_bind_iff {r : Except DocumentError α} {f : α → Except DocumentError β} :
    Strays (r >>= f) ↔ Strays r ∨ ∃ a, r = .ok a ∧ Strays (f a) := by
  constructor
  · rintro ⟨e, h, hlawful⟩
    rcases bind_eq_error_iff.mp h with h | ⟨a, ha, h⟩
    · exact .inl ⟨e, h, hlawful⟩
    · exact .inr ⟨a, ha, e, h, hlawful⟩
  · rintro (⟨e, h, hlawful⟩ | ⟨a, ha, e, h, hlawful⟩)
    · exact ⟨e, bind_eq_error_iff.mpr (.inl h), hlawful⟩
    · exact ⟨e, bind_eq_error_iff.mpr (.inr ⟨a, ha, h⟩), hlawful⟩

/-- The first of two steps breaks no rule, and the other one strays whatever the first one gave. -/
theorem strays_bind_iff_or {r : Except DocumentError α} {f : α → Except DocumentError β} {p : Prop}
    (hr : ∀ rule, r ≠ .error (.invalid rule)) (hf : ∀ a, Strays (f a) ↔ p) :
    Strays (r >>= f) ↔ Strays r ∨ p := by
  rw [strays_bind_iff]
  rcases r with e | a
  · have hstrays : Strays (.error e : Except DocumentError α) := by
      refine strays_error ?_
      cases e with
      | invalid rule => exact absurd rfl (hr rule)
      | _ => rfl
    exact iff_of_true (.inl hstrays) (.inl hstrays)
  · rw [← hf a]
    exact or_congr_right ⟨fun ⟨_, ha, h⟩ ↦ Except.ok.inj ha ▸ h, fun h ↦ ⟨a, rfl, h⟩⟩

theorem strays_bind_iff_left {r : Except DocumentError α} {f : α → Except DocumentError β}
    (hf : ∀ a, ¬Strays (f a)) : Strays (r >>= f) ↔ Strays r := by
  rw [strays_bind_iff]
  exact or_iff_left fun ⟨a, _, h⟩ ↦ hf a h

theorem not_strays_bind {r : Except DocumentError α} {f : α → Except DocumentError β}
    (hr : ¬Strays r) (hf : ∀ a, ¬Strays (f a)) : ¬Strays (r >>= f) :=
  mt (strays_bind_iff_left hf).mp hr

theorem strays_conversion_iff {r : Except ConversionError α} :
    Strays (r.mapError .conversion) ↔ ∃ e, r = .error e := by
  rcases r with e | a
  · exact iff_of_true (strays_error rfl) ⟨e, rfl⟩
  · exact iff_of_false not_strays_ok fun ⟨_, h⟩ ↦ nomatch h

theorem not_strays_throw_if {c : Prop} [Decidable c] {rule : ConfigError}
    {next : PUnit → Except DocumentError α} (h : ¬Strays (next ⟨⟩)) :
    ¬Strays (if c then Except.error (.invalid rule) >>= next else next ⟨⟩) := by
  split
  · exact not_strays_invalid
  · exact h

/-! ## Values under keys -/

namespace Document

/-- There is a value under the key, and it cannot be read. -/
def IsUnreadable (read : Document → Except ConversionError α) (entries : Entries) (key : String) :
    Prop :=
  ∃ value e, field? key entries = some value ∧ read value = .error e

/-- What is read under a key, or what there is otherwise. The numbers of all kinds are read so. -/
def readField? (read : Document → Except ConversionError α) (key : String) (otherwise : α)
    (entries : Entries) : Except DocumentError α :=
  match field? key entries with
  | some value => (read value).mapError .conversion
  | none => .ok otherwise

variable {read : Document → Except ConversionError α} {key : String} {otherwise : α}

theorem readField?_ne_invalid (rule : ConfigError) :
    readField? read key otherwise entries ≠ .error (.invalid rule) := by
  intro h
  rw [readField?] at h
  split at h
  · obtain ⟨_, -, ⟨⟩⟩ := mapError_eq_error_iff.mp h
  · cases h

theorem strays_readField?_iff :
    Strays (readField? read key otherwise entries) ↔ IsUnreadable read entries key := by
  rw [readField?, IsUnreadable]
  rcases field? key entries with _ | value
  · exact iff_of_false not_strays_ok fun ⟨_, _, h, _⟩ ↦ nomatch h
  · rw [strays_conversion_iff]
    constructor
    · rintro ⟨e, h⟩
      exact ⟨value, e, rfl, h⟩
    · rintro ⟨_, e, ⟨⟩, h⟩
      exact ⟨e, h⟩

/-- A value is read or not, whatever becomes of what is read. -/
theorem isUnreadable_map_iff {f : α → β} :
    IsUnreadable (fun value ↦ (read value).map f) entries key ↔
      IsUnreadable read entries key := by
  have hmap {r : Except ConversionError α} {e : ConversionError} :
      r.map f = .error e ↔ r = .error e := by
    rcases r with _ | _
    · exact ⟨fun h ↦ Except.error.inj h ▸ rfl, fun h ↦ Except.error.inj h ▸ rfl⟩
    · exact ⟨(nomatch ·), (nomatch ·)⟩
  rw [IsUnreadable, IsUnreadable]
  simp only [hmap]

theorem strays_readField?_bind_iff {f : α → Except DocumentError β} {p : Prop}
    (hf : ∀ a, Strays (f a) ↔ p) :
    Strays (readField? read key otherwise entries >>= f) ↔ IsUnreadable read entries key ∨ p := by
  rw [strays_bind_iff_or readField?_ne_invalid hf, strays_readField?_iff]

theorem strays_mapField?_bind_iff {γ : Type} {g : α → γ} {otherwise : γ}
    {f : γ → Except DocumentError β} {p : Prop} (hf : ∀ a, Strays (f a) ↔ p) :
    Strays (readField? (fun value ↦ (read value).map g) key otherwise entries >>= f) ↔
      IsUnreadable read entries key ∨ p := by
  rw [strays_readField?_bind_iff hf, isUnreadable_map_iff]

theorem not_strays_colorField? {otherwise : String} :
    ¬Strays (colorField? store key otherwise entries) := by
  rw [colorField?]
  split
  · rintro ⟨_, h, hlawful⟩
    obtain ⟨_, -, rfl⟩ := mapError_eq_error_iff.mp h
    cases hlawful
  · exact not_strays_ok

end Document

/-! ## Numbers in sections -/

namespace Layout

/-- The keys under which a layout has floats. -/
def realKeys : List String := ["width_mm", "height_mm", "start_x_mm", "start_y_mm"]

/-- One of the lengths of a layout is no float. -/
def IsStray (entries : Entries) : Prop := ∃ key ∈ realKeys, IsUnreadable toReal? entries key

theorem strays_ofEntries?_iff : Strays (ofEntries? store entries) ↔ IsStray entries := by
  have hkeys : IsStray entries ↔
      IsUnreadable toReal? entries "width_mm" ∨ IsUnreadable toReal? entries "height_mm" ∨
        IsUnreadable toReal? entries "start_x_mm" ∨ IsUnreadable toReal? entries "start_y_mm" ∨
          False := by
    simp only [IsStray, realKeys, List.exists_mem_cons_iff, List.not_mem_nil, false_and,
      exists_false]
  rw [hkeys]
  refine strays_readField?_bind_iff fun width ↦ strays_readField?_bind_iff fun height ↦
    strays_readField?_bind_iff fun startX ↦ strays_readField?_bind_iff fun startY ↦ ?_
  exact iff_false_intro (not_strays_throw_if not_strays_ok)

end Layout

namespace PreviewStyle

/-- The keys under which a style has integers. -/
def wholeKeys : List String := ["width_px", "height_px", "dpi"]

/-- The keys under which a style has floats. -/
def realKeys : List String := ["padding_px", "rapid_line_width", "feed_line_width"]

/-- One of the numbers of a style is no integer or no float. -/
def IsStray (entries : Entries) : Prop :=
  (∃ key ∈ wholeKeys, IsUnreadable toWhole? entries key) ∨
    ∃ key ∈ realKeys, IsUnreadable toReal? entries key

theorem strays_ofEntries?_iff : Strays (ofEntries? store entries) ↔ IsStray entries := by
  have hkeys : IsStray entries ↔
      IsUnreadable toWhole? entries "width_px" ∨ IsUnreadable toWhole? entries "height_px" ∨
        IsUnreadable toReal? entries "padding_px" ∨ IsUnreadable toWhole? entries "dpi" ∨
          IsUnreadable toReal? entries "rapid_line_width" ∨
            IsUnreadable toReal? entries "feed_line_width" ∨ False := by
    simp only [IsStray, wholeKeys, realKeys, List.exists_mem_cons_iff, List.not_mem_nil,
      false_and, exists_false]
    tauto
  rw [hkeys]
  refine strays_readField?_bind_iff fun width ↦ strays_readField?_bind_iff fun height ↦
    strays_mapField?_bind_iff fun padding ↦ strays_mapField?_bind_iff fun dpi ↦
      strays_readField?_bind_iff fun rapidWidth ↦ strays_readField?_bind_iff fun feedWidth ↦ ?_
  refine iff_false_intro (not_strays_bind not_strays_colorField? fun rapidColor ↦
    not_strays_bind not_strays_colorField? fun feedColor ↦
      not_strays_bind not_strays_colorField? fun boundsColor ↦
        not_strays_bind not_strays_colorField? fun originColor ↦ ?_)
  exact not_strays_throw_if (not_strays_throw_if not_strays_ok)

end PreviewStyle

end Engraving
