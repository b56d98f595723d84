import Mathlib.Data.List.Forall2

/-!
# Results that are there

A computation that may fail has a result exactly when each of its steps has one. This is said here
of two steps in a row and of one step for every entry of a list. A failure may be put in other
words, which changes nothing about whether there is a result.
-/

namespace Engraving

variable {ε α β : Type}

theorem ok_bind {a : α} {f : α → Except ε β} : (Except.ok a >>= f) = f a := rfl

theorem error_bind {failure : ε} {f : α → Except ε β} :
    (Except.error failure >>= f) = .error failure := rfl

theorem bind_eq_ok_iff {e : Except ε α} {f : α → Except ε β} {b : β} :
    (e >>= f) = .ok b ↔ ∃ a, e = .ok a ∧ f a = .ok b := by
  match e with
  | .error _ => exact ⟨fun h ↦ (nomatch h), fun ⟨_, h, _⟩ ↦ (nomatch h)⟩
  | .ok a => exact ⟨fun h ↦ ⟨a, rfl, h⟩, fun ⟨_, h, hf⟩ ↦ by cases h; exact hf⟩

/-- Two steps in a row fail where the first of them that fails does. -/
theorem bind_eq_error_iff {e : Except ε α} {f : α → Except ε β} {failure : ε} :
    (e >>= f) = .error failure ↔ e = .error failure ∨ ∃ a, e = .ok a ∧ f a = .error failure := by
  rcases e with first | a
  · constructor
    · rintro ⟨⟩
      exact Or.inl rfl
    · rintro (⟨⟨⟩⟩ | ⟨_, ⟨⟩, _⟩)
      rfl
  · constructor
    · intro h
      exact Or.inr ⟨a, rfl, h⟩
    · rintro (⟨⟨⟩⟩ | ⟨_, ⟨⟩, h⟩)
      exact h

/-- Two results that are the same in some respect are the same failure, or are both there. -/
theorem eq_error_or_exists_of_map_eq {e e' : Except ε α} {f : α → β} (h : e.map f = e'.map f) :
    (∃ failure, e = .error failure ∧ e' = .error failure) ∨
      ∃ a a', e = .ok a ∧ e' = .ok a' ∧ f a = f a' := by
  rcases e with failure | a
  · rcases e' with failure' | a'
    · obtain rfl := Except.error.inj h
      exact .inl ⟨failure, rfl, rfl⟩
    · cases h
  · rcases e' with failure' | a'
    · cases h
    · exact .inr ⟨a, a', rfl, rfl, Except.ok.inj h⟩

/-- What follows a failure on a condition is reached when the condition does not hold. -/
theorem of_error_if {p : Prop} [Decidable p] {failure : ε} {next : PUnit → Except ε α} {a : α}
    (h : (if p then Except.error failure >>= next else next PUnit.unit) = .ok a) :
    ¬ p ∧ next PUnit.unit = .ok a := by
  by_cases hp : p
  · rw [if_pos hp] at h
    cases h
  · rw [if_neg hp] at h
    exact ⟨hp, h⟩

/-! ## Results under another failure -/

section mapError

variable {ε' : Type} {g : ε → ε'} {e : Except ε α}

theorem mapError_ok {a : α} : (Except.ok a).mapError g = .ok a := rfl

theorem mapError_error {failure : ε} :
    (Except.error failure : Except ε α).mapError g = .error (g failure) := rfl

theorem mapError_eq_ok_iff {a : α} : e.mapError g = .ok a ↔ e = .ok a := by
  rcases e with _ | b
  · exact iff_of_false (by rintro ⟨⟩) (by rintro ⟨⟩)
  · exact ⟨by rintro ⟨⟩; rfl, by rintro ⟨⟩; rfl⟩

theorem mapError_eq_error_iff {b : ε'} :
    e.mapError g = .error b ↔ ∃ a, e = .error a ∧ g a = b := by
  rcases e with a | _
  · constructor
    · rintro ⟨⟩
      exact ⟨a, rfl, rfl⟩
    · rintro ⟨_, ⟨⟩, rfl⟩
      rfl
  · exact iff_of_false (by rintro ⟨⟩) (by rintro ⟨_, ⟨⟩, -⟩)

end mapError

/-! ## Lists of results -/

theorem exists_of_mem_forall₂ {α β : Type} {R : α → β → Prop} {xs : List α} {ys : List β}
    (h : List.Forall₂ R xs ys) {x : α} (hx : x ∈ xs) : ∃ y ∈ ys, R x y := by
  induction h with
  | nil => cases hx
  | @cons _ y _ _ hR _ ih =>
    rcases List.mem_cons.mp hx with rfl | hx
    · exact ⟨y, List.mem_cons_self, hR⟩
    · obtain ⟨z, hz, hR⟩ := ih hx
      exact ⟨z, List.mem_cons_of_mem y hz, hR⟩

variable {f : α → Except ε β} {inputs : List α} {results : List β}

/-- A list of results is there exactly when all of them are. -/
theorem mapM_eq_ok_iff :
    inputs.mapM f = .ok results ↔ List.Forall₂ (fun a b ↦ f a = .ok b) inputs results := by
  induction inputs generalizing results with
  | nil =>
    rw [List.mapM_nil, List.forall₂_nil_left_iff]
    exact ⟨fun h ↦ (Except.ok.inj h).symm, fun h ↦ congrArg Except.ok h.symm⟩
  | cons a rest ih =>
    rw [List.mapM_cons, List.forall₂_cons_left_iff, bind_eq_ok_iff]
    constructor
    · rintro ⟨b, hb, h⟩
      obtain ⟨later, hlater, h⟩ := bind_eq_ok_iff.mp h
      cases h
      exact ⟨b, later, hb, ih.mp hlater, rfl⟩
    · rintro ⟨b, later, hb, hlater, rfl⟩
      exact ⟨b, hb, bind_eq_ok_iff.mpr ⟨later, ih.mpr hlater, rfl⟩⟩

/-- Where all failures are one, a list of results fails when one of its entries does. -/
theorem mapM_eq_error_iff_of_forall (failure : ε) {e : ε}
    (hf : ∀ a e, f a = .error e → e = failure) :
    inputs.mapM f = .error e ↔ e = failure ∧ ∃ a ∈ inputs, f a = .error failure := by
  induction inputs with
  | nil => exact iff_of_false nofun fun ⟨_, _, h, _⟩ ↦ nomatch h
  | cons a rest ih =>
    rw [List.mapM_cons, bind_eq_error_iff, List.exists_mem_cons_iff]
    rcases ha : f a with e' | b
    · obtain rfl := hf a e' ha
      constructor
      · rintro (⟨⟨⟩⟩ | ⟨_, ⟨⟩, -⟩)
        exact ⟨rfl, .inl rfl⟩
      · rintro ⟨rfl, -⟩
        exact .inl rfl
    · rw [or_iff_right nofun, or_iff_right nofun, ← ih]
      constructor
      · rintro ⟨_, ⟨⟩, h⟩
        exact (bind_eq_error_iff.mp h).resolve_right fun ⟨_, _, h⟩ ↦ nomatch h
      · intro h
        exact ⟨b, rfl, bind_eq_error_iff.mpr (.inl h)⟩

/-- Lists of results are related, entry by entry, when the steps that they come from are. -/
theorem forall₂_of_mapM {α' β' : Type} {R : α → α' → Prop} {S : β → β' → Prop}
    {f' : α' → Except ε β'} {inputs' : List α'} {results' : List β'}
    (hinputs : List.Forall₂ R inputs inputs') (h : inputs.mapM f = .ok results)
    (h' : inputs'.mapM f' = .ok results')
    (hstep : ∀ a a' b b', R a a' → f a = .ok b → f' a' = .ok b' → S b b') :
    List.Forall₂ S results results' := by
  have hresults := mapM_eq_ok_iff.mp h
  have hresults' := mapM_eq_ok_iff.mp h'
  clear h h'
  induction hinputs generalizing results results' with
  | nil =>
    cases hresults
    cases hresults'
    exact .nil
  | cons hR _ ih =>
    cases hresults with
    | cons hb hlater =>
      cases hresults' with
      | cons hb' hlater' => exact .cons (hstep _ _ _ _ hR hb hb') (ih hlater hlater')

theorem exists_of_mem_mapM (h : inputs.mapM f = .ok results) {b : β} (hb : b ∈ results) :
    ∃ a ∈ inputs, f a = .ok b :=
  exists_of_mem_forall₂ (mapM_eq_ok_iff.mp h).flip hb

end Engraving
