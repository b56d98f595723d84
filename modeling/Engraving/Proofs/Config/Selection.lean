import Engraving.Proofs.Config.Acceptance
import Engraving.Proofs.Number.FloatOrder

/-!
# Which of several lasers is read

Of several lasers the one that is asked for is wanted, else the one that `default_laser` names, else
the first one. A laser that is asked for, or that comes first, is the one that is read. A default
laser is looked for under its name, but read under the text that its name is written as: where the
two are not the same, another laser may be read, or none.

Nothing that is said about the other lasers matters to a selection that is not misled in this way.
-/

namespace Engraving

open Document

variable {α : Type} {store : Store} {profile? : Option String} {entries lasers : Entries}

/-! ## Keys -/

namespace Document

def IsScalar : Document → Prop
  | pair .. | list _ | set _ | mapping _ | shared _ => False
  | _ => True

theorem isSame_self_real (x : Float) : (real x).isSame (real x) = true := by
  change (x == x || (x.isNaN && x.isNaN)) = true
  by_cases hx : IsDefined x
  · rw [(hx.beq_iff hx).mpr rfl, Bool.true_or]
  · have hnan : x.isNaN = true := by
      rw [IsDefined, not_not, ofFloat_eq_exactOf] at hx
      change x.toModel.unpack.isNaN = true
      generalize x.toModel.unpack = u at hx ⊢
      cases u
      case notANumber => rfl
      all_goals cases hx
    rw [hnan, Bool.and_self, Bool.or_true]

theorem IsScalar.isSame_self {key : Document} (h : key.IsScalar) : key.isSame key = true := by
  cases key
  case pair | list | set | mapping | shared => exact h.elim
  case real x => exact isSame_self_real x
  all_goals simp [isSame, whole?, Instant.isSame]

/-- A collection is no key, so nothing is found under it. -/
theorem lookup?_of_not_isKey {key : Document} (h : key.isKey = false) :
    lookup? key lasers = none := by
  have hother (other : Document) : other.isSame key = false := by
    cases key <;> cases h <;> cases other <;> simp [isSame, whole?]
  rw [lookup?, List.find?_eq_none.mpr fun entry _ ↦ Bool.eq_false_iff.mp (hother entry.1)]
  rfl

end Document

/-- The key of the laser that is wanted: the name that is asked for, else the name of the default
laser, else the first key. -/
def wantedKey (store : Store) (profile? : Option String) (entries lasers : Entries) : Document :=
  match profile?, defaultName? store entries with
  | some name, _ => .text name
  | none, some name => name
  | none, none => (lasers.head?.map Prod.fst).getD .null

theorem wantedKey_of_defaultName? {name : Document} (h : defaultName? store entries = some name) :
    wantedKey store none entries lasers = name := by
  unfold wantedKey
  rw [h]

theorem wantedKey_of_none (h : defaultName? store entries = none) :
    wantedKey store none entries lasers = (lasers.head?.map Prod.fst).getD .null := by
  unfold wantedKey
  rw [h]

theorem exists_lookup?_wantedKey (hne : lasers ≠ [])
    (hkeys : ∀ key ∈ lasers.map Prod.fst, key.IsScalar)
    (hdefault : defaultName? store entries = none) :
    ∃ laser, lookup? (wantedKey store none entries lasers) lasers = some laser := by
  obtain ⟨⟨key, laser⟩, rest, rfl⟩ := List.exists_cons_of_ne_nil hne
  have hsame : key.isSame key = true := (hkeys key List.mem_cons_self).isSame_self
  refine ⟨laser, ?_⟩
  rw [wantedKey_of_none hdefault]
  change lookup? key ((key, laser) :: rest) = _
  rw [lookup?, List.find?_cons, hsame]
  rfl

/-! ## What reading comes to -/

theorem exists_sortedNames? (h : ¬HasOtherKeys lasers) :
    ∃ names, sortedNames? lasers = .ok names := by
  rcases hnames : sortedNames? lasers with e | names
  · exact absurd (sortedNames?_eq_error_iff.mp hnames).2 h
  · exact ⟨names, rfl⟩

/-- A rule is broken only after the names have been listed. -/
theorem exists_of_sortedNames?_bind {f : List String → Except DocumentError α} {rule : ConfigError}
    (h : sortedNames? lasers >>= f = .error (.invalid rule)) :
    ∃ names, sortedNames? lasers = .ok names ∧ f names = .error (.invalid rule) := by
  rcases bind_eq_error_iff.mp h with h | h
  · cases (sortedNames?_eq_error_iff.mp h).1
  · exact h

/-- The names of lasers are listed by their keys alone. -/
theorem sortedNames?_congr {lasers' : Entries}
    (h : lasers'.map Prod.fst = lasers.map Prod.fst) :
    sortedNames? lasers' = sortedNames? lasers := by
  have hnames (lasers : Entries) :
      sortedNames? lasers = sortedNames? ((lasers.map Prod.fst).map fun key ↦ (key, .null)) := by
    rw [sortedNames?, sortedNames?, List.mapM_map, List.mapM_map]
    rfl
  rw [hnames lasers', hnames lasers, h]

theorem laserAmong?_some {name : String} : laserAmong? store (some name) entries lasers =
    match field? name lasers with
    | some laser => Laser.ofDocument? store (some (.text name)) laser
    | none => sortedNames? lasers >>= fun names ↦
      .error (.invalid (.profileMissing name names)) := by
  rw [laserAmong?, selectedKey?]
  rcases hlaser : field? name lasers with _ | laser
  · rcases sortedNames? lasers with e | names
    · rfl
    · rfl
  · change (match field? name lasers with
      | some laser => Laser.ofDocument? store (some (.text name)) laser
      | none => _) = _
    rw [hlaser]

theorem laserAmong?_of_defaultName? {name : Document} (h : defaultName? store entries = some name)
    (hkey : name.isKey = true) : laserAmong? store none entries lasers =
    match lookup? name lasers with
    | some _ => shown? store name >>= fun text ↦
      match field? text lasers with
      | some laser => Laser.ofDocument? store (some (.text text)) laser
      | none => .error (.nameLookup text)
    | none => sortedNames? lasers >>= fun names ↦ shown? store name >>= fun text ↦
      .error (.invalid (.defaultMissing text names)) := by
  rw [defaultName?] at h
  unfold laserAmong? selectedKey?
  simp only [h, hkey]
  rcases lookup? name lasers with _ | laser
  · rcases sortedNames? lasers with e | names
    · rfl
    · rcases shown? store name with e | text
      · rfl
      · rfl
  · rcases shown? store name with e | text
    · rfl
    · rfl

theorem laserAmong?_of_not_isKey {name : Document} (h : defaultName? store entries = some name)
    (hkey : name.isKey = false) : laserAmong? store none entries lasers = .error .nameKind := by
  rw [defaultName?] at h
  unfold laserAmong? selectedKey?
  simp only [h, hkey]
  rfl

theorem laserAmong?_of_none (h : defaultName? store entries = none) {laser : Document}
    (hlaser : lookup? (wantedKey store none entries lasers) lasers = some laser) :
    laserAmong? store none entries lasers
      = Laser.ofDocument? store (some (wantedKey store none entries lasers)) laser := by
  rw [wantedKey_of_none h] at hlaser ⊢
  rw [defaultName?] at h
  unfold laserAmong? selectedKey?
  simp only [h, pure_bind, hlaser]

/-! ## Errors of a laser -/

/-- The error tells of a rule or of a value. -/
def DocumentError.IsOfValue (e : DocumentError) : Prop :=
  (∃ rule, e = .invalid rule) ∨ ∃ failure, e = .conversion failure

theorem isOfValue_of_refuseWhole {rule : ℤ → ConfigError} {n : ℤ} {e : DocumentError}
    (h : refuseWhole rule n = .error e) : e.IsOfValue := by
  rw [refuseWhole] at h
  split at h
  · exact .inl ⟨_, (Except.error.inj h).symm⟩
  · exact .inr ⟨_, (Except.error.inj h).symm⟩

theorem isOfValue_of_checkedWhole?_bind {key : String} {inside : ℤ → Prop} [DecidablePred inside]
    {rule : ℤ → ConfigError} {f : ℤ → Except DocumentError α} {e : DocumentError}
    (hf : ∀ n, f n = .error e → e.IsOfValue)
    (h : (do
      let n ← (← required? key entries).toWhole?.mapError .conversion
      unless inside n do refuseWhole rule n
      f n) = .error e) : e.IsOfValue := by
  rcases bind_eq_error_iff.mp h with h | ⟨value, -, h⟩
  · rw [required?] at h
    split at h
    · cases h
    · exact .inl ⟨_, (Except.error.inj h).symm⟩
  rcases bind_eq_error_iff.mp h with h | ⟨n, -, h⟩
  · obtain ⟨_, -, rfl⟩ := mapError_eq_error_iff.mp h
    exact .inr ⟨_, rfl⟩
  by_cases hn : inside n
  · rw [if_pos hn] at h
    exact hf n h
  · rw [if_neg hn] at h
    rcases bind_eq_error_iff.mp h with h | ⟨_, -, h⟩
    · exact isOfValue_of_refuseWhole h
    · exact hf n h

theorem Laser.isOfValue_of_ofDocument? {key? : Option Document} {document : Document}
    {e : DocumentError} (h : ofDocument? store key? document = .error e) : e.IsOfValue := by
  rcases hsettings : document.entries? store with _ | settings
  · rw [ofDocument?, hsettings] at h
    exact .inl ⟨_, (Except.error.inj h).symm⟩
  rw [ofDocument?_eq hsettings] at h
  refine isOfValue_of_checkedWhole?_bind (f := rated? store key? settings) (fun maxPower h ↦ ?_) h
  refine isOfValue_of_checkedWhole?_bind (f := named? store key? settings maxPower)
    (fun feedRate h ↦ ?_) h
  rw [named?_eq] at h
  rcases bind_eq_error_iff.mp h with h | ⟨_, -, ⟨⟩⟩
  obtain ⟨_, -, rfl⟩ := mapError_eq_error_iff.mp h
  exact .inr ⟨_, rfl⟩

/-! ## Selections that are misled -/

/-- What is read is the laser under the key, and if there is none, a rule is broken. -/
structure IsReading (store : Store) (lasers : Entries) (key : Document)
    (r : Except DocumentError Laser) : Prop where
  found {laser : Document} (h : lookup? key lasers = some laser) :
    r = Laser.ofDocument? store (some key) laser
  missing (h : lookup? key lasers = none) : ∃ rule, r = .error (.invalid rule)

/-- How it comes that another laser is read than the one that is wanted, or that it is refused for
something else than its settings. -/
inductive IsMisled (store : Store) (profile? : Option String) (entries lasers : Entries) : Prop
  /-- The laser is missing, and the names of the others cannot be listed. -/
  | names (missing : lookup? (wantedKey store profile? entries lasers) lasers = none)
    (others : HasOtherKeys lasers)
  /-- The name of the default laser is a collection. -/
  | collection {name : Document} (unasked : profile? = none)
    (wanted : defaultName? store entries = some name) (collection : name.isKey = false)
  /-- The default laser is missing, and its name is too long to be told. -/
  | unwritten {name : Document} {e : NumberError} (unasked : profile? = none)
    (wanted : defaultName? store entries = some name) (missing : lookup? name lasers = none)
    (unwritten : name.plainText? store = .error e)
  /-- The name of the default laser is too long to be written, and that is not what its settings
  are refused for. -/
  | longName {name laser : Document} {e : NumberError} (unasked : profile? = none)
    (wanted : defaultName? store entries = some name) (found : lookup? name lasers = some laser)
    (unwritten : name.plainText? store = .error e)
    (other : Laser.ofDocument? store (some name) laser ≠ .error (.conversion (.number e)))
  /-- The default laser is there, but nothing stands under the text of its name. -/
  | lookup {name laser : Document} {text : String} (unasked : profile? = none)
    (wanted : defaultName? store entries = some name) (found : lookup? name lasers = some laser)
    (written : name.plainText? store = .ok text) (missing : field? text lasers = none)
  /-- The default laser is there, but what stands under the text of its name is read otherwise. -/
  | other {name laser laser' : Document} {text : String} (unasked : profile? = none)
    (wanted : defaultName? store entries = some name) (found : lookup? name lasers = some laser)
    (written : name.plainText? store = .ok text) (taken : field? text lasers = some laser')
    (other : Laser.ofDocument? store (some (.text text)) laser' ≠
      Laser.ofDocument? store (some name) laser)

theorem isReading_of_not_isMisled (hne : lasers ≠ [])
    (hkeys : ∀ key ∈ lasers.map Prod.fst, key.IsScalar)
    (h : ¬IsMisled store profile? entries lasers) :
    IsReading store lasers (wantedKey store profile? entries lasers)
      (laserAmong? store profile? entries lasers) := by
  have hnames (hmissing : lookup? (wantedKey store profile? entries lasers) lasers = none) :
      ∃ names, sortedNames? lasers = .ok names :=
    exists_sortedNames? fun hothers ↦ h (.names hmissing hothers)
  rcases profile? with _ | name
  · rcases hdefault : defaultName? store entries with _ | name
    · refine ⟨fun hlaser ↦ laserAmong?_of_none hdefault hlaser, fun hmissing ↦ ?_⟩
      -- Without a default the first laser is wanted, and that one is never missing.
      obtain ⟨laser, hlaser⟩ := exists_lookup?_wantedKey hne hkeys hdefault
      rw [hmissing] at hlaser
      cases hlaser
    have hkey : name.isKey = true :=
      Bool.eq_true_of_not_eq_false fun hkey ↦ h (.collection rfl hdefault hkey)
    rw [wantedKey_of_defaultName? hdefault] at hnames ⊢
    rw [laserAmong?_of_defaultName? hdefault hkey]
    refine ⟨fun {laser} hlaser ↦ ?_, fun hmissing ↦ ?_⟩
    · rw [hlaser, shown?]
      by_contra hother
      rcases htext : name.plainText? store with e | text
      · rw [htext] at hother
        exact h (.longName rfl hdefault hlaser htext (Ne.symm hother))
      rcases htaken : field? text lasers with _ | laser'
      · exact h (.lookup rfl hdefault hlaser htext htaken)
      · rw [htext, mapError_ok, ok_bind] at hother
        simp only [htaken] at hother
        exact h (.other rfl hdefault hlaser htext htaken hother)
    · obtain ⟨names, hnames⟩ := hnames hmissing
      rw [hmissing, hnames, ok_bind, shown?]
      rcases htext : name.plainText? store with e | text
      · exact absurd (.unwritten rfl hdefault hmissing htext) h
      · exact ⟨_, rfl⟩
  · rw [laserAmong?_some]
    refine ⟨fun {laser} hlaser ↦ ?_, fun hmissing ↦ ?_⟩
    · rw [show field? name lasers = some laser from hlaser]
      rfl
    · obtain ⟨names, hnames⟩ := hnames hmissing
      rw [show field? name lasers = none from hmissing, hnames]
      exact ⟨_, rfl⟩

section default

variable {name : Document} (hname : defaultName? store entries = some name)
  (h : IsReading store lasers (wantedKey store none entries lasers)
    (laserAmong? store none entries lasers))

include hname h

theorem IsReading.isKey_of_defaultName? : name.isKey = true := by
  refine Bool.eq_true_of_not_eq_false fun hkey ↦ ?_
  rw [wantedKey_of_defaultName? hname, laserAmong?_of_not_isKey hname hkey] at h
  obtain ⟨_, ⟨⟩⟩ := h.missing (lookup?_of_not_isKey hkey)

/-- The default laser is read under the text of its name. -/
theorem IsReading.shown?_bind_eq {laser : Document} (hlaser : lookup? name lasers = some laser) :
    (shown? store name >>= fun text ↦
      match field? text lasers with
      | some laser => Laser.ofDocument? store (some (.text text)) laser
      | none => .error (.nameLookup text)) = Laser.ofDocument? store (some name) laser := by
  have hkey := h.isKey_of_defaultName? hname
  rw [wantedKey_of_defaultName? hname, laserAmong?_of_defaultName? hname hkey] at h
  have hread := h.found hlaser
  rwa [hlaser] at hread

/-- Without the default laser a rule is broken only if all names can be told. -/
theorem IsReading.exists_shown? (hmissing : lookup? name lasers = none) :
    (∃ names, sortedNames? lasers = .ok names) ∧ ∃ text, name.plainText? store = .ok text := by
  have hkey := h.isKey_of_defaultName? hname
  rw [wantedKey_of_defaultName? hname, laserAmong?_of_defaultName? hname hkey] at h
  obtain ⟨rule, hrule⟩ := h.missing hmissing
  rw [hmissing] at hrule
  obtain ⟨names, hnames, hrule⟩ := exists_of_sortedNames?_bind hrule
  rcases htext : name.plainText? store with e | text
  · rw [shown?, htext] at hrule
    cases hrule
  · exact ⟨⟨names, hnames⟩, text, rfl⟩

end default

theorem IsReading.exists_sortedNames?_of_profile {name : String}
    (h : IsReading store lasers (.text name) (laserAmong? store (some name) entries lasers))
    (hmissing : field? name lasers = none) : ∃ names, sortedNames? lasers = .ok names := by
  obtain ⟨rule, hrule⟩ := h.missing hmissing
  rw [laserAmong?_some, hmissing] at hrule
  obtain ⟨names, hnames, -⟩ := exists_of_sortedNames?_bind hrule
  exact ⟨names, hnames⟩

theorem IsMisled.not_isReading (h : IsMisled store profile? entries lasers) (hne : lasers ≠ [])
    (hkeys : ∀ key ∈ lasers.map Prod.fst, key.IsScalar) :
    ¬IsReading store lasers (wantedKey store profile? entries lasers)
      (laserAmong? store profile? entries lasers) := by
  intro hreading
  cases h with
  | names hmissing hothers =>
    -- To report the missing laser, the names of the others have to be listed.
    have hlisted : ∃ names, sortedNames? lasers = .ok names := by
      rcases profile? with _ | name
      · rcases hname : defaultName? store entries with _ | name
        · obtain ⟨laser, hlaser⟩ := exists_lookup?_wantedKey hne hkeys hname
          rw [hmissing] at hlaser
          cases hlaser
        · rw [wantedKey_of_defaultName? hname] at hmissing
          exact (hreading.exists_shown? hname hmissing).1
      · exact hreading.exists_sortedNames?_of_profile hmissing
    obtain ⟨names, hnames⟩ := hlisted
    rw [sortedNames?_eq_error_iff.mpr ⟨rfl, hothers⟩] at hnames
    cases hnames
  | collection hprofile hname hcollection =>
    subst hprofile
    exact Bool.false_ne_true (hcollection.symm.trans (hreading.isKey_of_defaultName? hname))
  | unwritten hprofile hname hmissing hunwritten =>
    subst hprofile
    obtain ⟨-, text, htext⟩ := hreading.exists_shown? hname hmissing
    rw [hunwritten] at htext
    cases htext
  | longName hprofile hname hlaser hunwritten hother =>
    subst hprofile
    have h := hreading.shown?_bind_eq hname hlaser
    rw [shown?, hunwritten] at h
    exact hother h.symm
  | lookup hprofile hname hlaser hwritten hmissing =>
    subst hprofile
    have h := hreading.shown?_bind_eq hname hlaser
    rw [shown?, hwritten, mapError_ok, ok_bind] at h
    simp only [hmissing] at h
    rcases Laser.isOfValue_of_ofDocument? h.symm with ⟨_, h⟩ | ⟨_, h⟩
    · cases h
    · cases h
  | other hprofile hname hlaser hwritten htaken hother =>
    subst hprofile
    have h := hreading.shown?_bind_eq hname hlaser
    rw [shown?, hwritten, mapError_ok, ok_bind] at h
    simp only [htaken] at h
    exact hother h

/-! ## Documents -/

namespace Config

variable {document : Document} {key : Document}

/-- The laser of a configuration is the one under the key, and if there is none, a rule is
broken. -/
structure Follows (store : Store) (profile? : Option String) (document : Document)
    (entries lasers : Entries) (key : Document) : Prop where
  /-- When the other sections can be read, there is a configuration exactly when the settings of the
  laser can be read, and they are what it has for them. -/
  accepted {laser : Document} {layout : Layout} {preview : PreviewStyle}
    (hlaser : lookup? key lasers = some laser) (hlayout : Layout.ofRoot? store entries = .ok layout)
    (hpreview : PreviewStyle.ofRoot? store entries = .ok preview) (c : Config) :
    ofDocument? store profile? document = .ok c ↔
      ∃ settings, laser.entries? store = some settings ∧
        Laser.IsGiven store (some key) settings c.laser ∧ c.layout = layout ∧ c.preview = preview
  refused {laser : Document} {e : DocumentError} (hlaser : lookup? key lasers = some laser)
    (h : Laser.ofDocument? store (some key) laser = .error e) :
    ofDocument? store profile? document = .error e
  missing (h : lookup? key lasers = none) :
    ∃ rule, ofDocument? store profile? document = .error (.invalid rule)

theorem ofDocument?_eq_of_rootEntries? (hroot : rootEntries? store document = some entries) :
    ofDocument? store profile? document = ofRoot? store profile? entries := by
  rw [ofDocument?_eq, hroot]

theorem ofRoot?_of_error {e : DocumentError}
    (h : selectedLaser? store profile? entries = .error e) :
    ofRoot? store profile? entries = .error e := by
  rw [ofRoot?, h]
  rfl

theorem ofRoot?_eq_error_iff {layout : Layout} {preview : PreviewStyle} {e : DocumentError}
    (hlayout : Layout.ofRoot? store entries = .ok layout)
    (hpreview : PreviewStyle.ofRoot? store entries = .ok preview) :
    ofRoot? store profile? entries = .error e ↔
      selectedLaser? store profile? entries = .error e := by
  refine ⟨fun h ↦ ?_, ofRoot?_of_error⟩
  rcases bind_eq_error_iff.mp h with h | ⟨_, -, h⟩
  · exact h
  rw [hlayout, ok_bind, hpreview] at h
  cases h

theorem follows_of_isReading (hroot : rootEntries? store document = some entries)
    (given : HasLasers store entries lasers)
    (h : IsReading store lasers key (laserAmong? store profile? entries lasers)) :
    Follows store profile? document entries lasers key := by
  have hselected :
      selectedLaser? store profile? entries = laserAmong? store profile? entries lasers :=
    selectedLaser?_eq_of_hasLasers given
  have hdocument : ofDocument? store profile? document = ofRoot? store profile? entries :=
    ofDocument?_eq_of_rootEntries? hroot
  refine ⟨fun {laser layout preview} hlaser hlayout hpreview c ↦ ?_, fun {laser e} hlaser he ↦ ?_,
    fun hmissing ↦ ?_⟩
  · rw [hdocument, ofRoot?_eq_ok_iff, hselected, h.found hlaser, Laser.ofDocument?_eq_ok_iff,
      hlayout, hpreview]
    constructor
    · rintro ⟨⟨settings, hsettings, hgiven⟩, ⟨⟩, ⟨⟩⟩
      exact ⟨settings, hsettings, hgiven, rfl, rfl⟩
    · rintro ⟨settings, hsettings, hgiven, rfl, rfl⟩
      exact ⟨⟨settings, hsettings, hgiven⟩, rfl, rfl⟩
  · rw [hdocument]
    exact ofRoot?_of_error (hselected.trans ((h.found hlaser).trans he))
  · obtain ⟨rule, hrule⟩ := h.missing hmissing
    exact ⟨rule, hdocument.trans (ofRoot?_of_error (hselected.trans hrule))⟩

theorem Follows.isReading (h : Follows store profile? document entries lasers key)
    (hroot : rootEntries? store document = some entries) (given : HasLasers store entries lasers)
    {layout : Layout} {preview : PreviewStyle} (hlayout : Layout.ofRoot? store entries = .ok layout)
    (hpreview : PreviewStyle.ofRoot? store entries = .ok preview) :
    IsReading store lasers key (laserAmong? store profile? entries lasers) := by
  have hselected :
      selectedLaser? store profile? entries = laserAmong? store profile? entries lasers :=
    selectedLaser?_eq_of_hasLasers given
  have hdocument : ofDocument? store profile? document = ofRoot? store profile? entries :=
    ofDocument?_eq_of_rootEntries? hroot
  have herror {e : DocumentError} (he : ofDocument? store profile? document = .error e) :
      laserAmong? store profile? entries lasers = .error e :=
    hselected.symm.trans ((ofRoot?_eq_error_iff hlayout hpreview).mp (hdocument.symm.trans he))
  refine ⟨fun {laser} hlaser ↦ ?_, fun hmissing ↦ ?_⟩
  · rcases hread : Laser.ofDocument? store (some key) laser with e | l
    · exact herror (h.refused hlaser hread)
    · obtain ⟨settings, hsettings, hgiven⟩ := Laser.ofDocument?_eq_ok_iff.mp hread
      have hc : ofDocument? store profile? document = .ok { laser := l, layout, preview } :=
        (h.accepted hlaser hlayout hpreview _).mpr ⟨settings, hsettings, hgiven, rfl, rfl⟩
      exact hselected.symm.trans (ofRoot?_eq_ok_iff.mp (hdocument.symm.trans hc)).1
  · obtain ⟨rule, hrule⟩ := h.missing hmissing
    exact ⟨rule, herror hrule⟩

/-! ## Documents that want the same laser -/

/-- What the laser that is wanted is read as, if it is there. -/
def wantedLaser? (store : Store) (profile? : Option String) (entries lasers : Entries) :
    Option (Except DocumentError Laser) :=
  let key := wantedKey store profile? entries lasers
  (lookup? key lasers).map (Laser.ofDocument? store (some key))

/-- Two documents have lasers under the same keys, want one that is read alike, and have other
sections that are read alike. All the rest may differ. -/
structure Agrees (store store' : Store) (profile? : Option String)
    (entries lasers entries' lasers' : Entries) : Prop where
  keys : lasers'.map Prod.fst = lasers.map Prod.fst
  default (unasked : profile? = none) : defaultName? store' entries' = defaultName? store entries
  /-- The name of the laser that is wanted is told in the same way. -/
  text : (wantedKey store' profile? entries' lasers').plainText? store' =
    (wantedKey store profile? entries lasers).plainText? store
  laser : wantedLaser? store' profile? entries' lasers' = wantedLaser? store profile? entries lasers
  layout : Layout.ofRoot? store' entries' = Layout.ofRoot? store entries
  preview : PreviewStyle.ofRoot? store' entries' = PreviewStyle.ofRoot? store entries

section agrees

variable {store' : Store} {entries' lasers' : Entries} {document' : Document}

theorem Agrees.wantedKey_eq (h : Agrees store store' profile? entries lasers entries' lasers') :
    wantedKey store' profile? entries' lasers' = wantedKey store profile? entries lasers := by
  rcases profile? with _ | name
  · have hhead : lasers'.head?.map Prod.fst = lasers.head?.map Prod.fst := by
      rw [← List.head?_map, ← List.head?_map, h.keys]
    unfold wantedKey
    rw [h.default rfl, hhead]
  · rfl

/-- What a selection comes to when the laser is missing. -/
theorem Agrees.laserAmong?_eq_of_missing
    (h : Agrees store store' profile? entries lasers entries' lasers') (hne : lasers ≠ [])
    (hkeys : ∀ key ∈ lasers.map Prod.fst, key.IsScalar)
    (hmissing : lookup? (wantedKey store profile? entries lasers) lasers = none)
    (hmissing' : lookup? (wantedKey store profile? entries lasers) lasers' = none) :
    laserAmong? store' profile? entries' lasers' = laserAmong? store profile? entries lasers := by
  have hnames := sortedNames?_congr h.keys
  rcases profile? with _ | name
  · have hdefault := h.default rfl
    rcases hname : defaultName? store entries with _ | name
    · obtain ⟨laser, hlaser⟩ := exists_lookup?_wantedKey hne hkeys hname
      rw [hmissing] at hlaser
      cases hlaser
    rw [hname] at hdefault
    rw [wantedKey_of_defaultName? hname] at hmissing hmissing'
    rcases hkey : name.isKey with _ | _
    · rw [laserAmong?_of_not_isKey hname hkey, laserAmong?_of_not_isKey hdefault hkey]
    have htext := h.text
    rw [wantedKey_of_defaultName? hname, wantedKey_of_defaultName? hdefault] at htext
    rw [laserAmong?_of_defaultName? hname hkey, laserAmong?_of_defaultName? hdefault hkey, hmissing,
      hmissing', hnames, shown?, shown?, htext]
  · rw [laserAmong?_some, laserAmong?_some, show field? name lasers = none from hmissing,
      show field? name lasers' = none from hmissing', hnames]

/-- Nothing else matters to what is read, unless a selection is misled. -/
theorem Agrees.laserAmong?_eq (h : Agrees store store' profile? entries lasers entries' lasers')
    (hne : lasers ≠ []) (hkeys : ∀ key ∈ lasers.map Prod.fst, key.IsScalar)
    (hreading : IsReading store lasers (wantedKey store profile? entries lasers)
      (laserAmong? store profile? entries lasers))
    (hreading' : IsReading store' lasers' (wantedKey store' profile? entries' lasers')
      (laserAmong? store' profile? entries' lasers')) :
    laserAmong? store' profile? entries' lasers' = laserAmong? store profile? entries lasers := by
  have hlaser := h.laser
  simp only [wantedLaser?] at hlaser
  rw [h.wantedKey_eq] at hlaser hreading'
  rcases hfound : lookup? (wantedKey store profile? entries lasers) lasers with _ | laser
  · rw [hfound, Option.map_none, Option.map_eq_none_iff] at hlaser
    exact h.laserAmong?_eq_of_missing hne hkeys hfound hlaser
  · rw [hfound, Option.map_some, Option.map_eq_some_iff] at hlaser
    obtain ⟨laser', hfound', hlaser⟩ := hlaser
    rw [hreading.found hfound, hreading'.found hfound', hlaser]

/-- **Which of several lasers is read.** Of lasers under keys that are no collections, the one that
is wanted is read unless the selection is misled: there is a configuration with its settings, or the
document is refused for them, and when the laser is missing a rule is broken. A selection that is
misled always shows when the other sections can be read. What is said about the other lasers, and
under `laser`, does not matter to a selection that is not misled. -/
theorem follows_iff_not_isMisled (hroot : rootEntries? store document = some entries)
    (given : HasLasers store entries lasers)
    (hkeys : ∀ key ∈ lasers.map Prod.fst, key.IsScalar) :
    (¬IsMisled store profile? entries lasers →
      Follows store profile? document entries lasers (wantedKey store profile? entries lasers)) ∧
    (∀ layout preview, Layout.ofRoot? store entries = .ok layout →
      PreviewStyle.ofRoot? store entries = .ok preview →
      Follows store profile? document entries lasers (wantedKey store profile? entries lasers) →
        ¬IsMisled store profile? entries lasers) ∧
    ∀ store' document' entries' lasers', rootEntries? store' document' = some entries' →
      HasLasers store' entries' lasers' →
      Agrees store store' profile? entries lasers entries' lasers' →
      ¬IsMisled store profile? entries lasers → ¬IsMisled store' profile? entries' lasers' →
        ofDocument? store' profile? document' = ofDocument? store profile? document := by
  refine ⟨fun h ↦ ?_, fun layout preview hlayout hpreview h hmisled ↦ ?_,
    fun store' document' entries' lasers' hroot' given' hagrees h h' ↦ ?_⟩
  · exact follows_of_isReading hroot given (isReading_of_not_isMisled given.1 hkeys h)
  · exact hmisled.not_isReading given.1 hkeys (h.isReading hroot given hlayout hpreview)
  · have hkeys' : ∀ key ∈ lasers'.map Prod.fst, key.IsScalar := hagrees.keys ▸ hkeys
    have hlaser := hagrees.laserAmong?_eq given.1 hkeys
      (isReading_of_not_isMisled given.1 hkeys h) (isReading_of_not_isMisled given'.1 hkeys' h')
    rw [ofDocument?_eq_of_rootEntries? hroot, ofDocument?_eq_of_rootEntries? hroot', ofRoot?,
      ofRoot?, selectedLaser?_eq_of_hasLasers given, selectedLaser?_eq_of_hasLasers given', hlaser,
      hagrees.layout, hagrees.preview]

end agrees

/-- The only laser of a document, under a key that is no text. -/
def numberedLasers : Entries := [(.whole 1, .mapping [
  (.text "max_power_percent", .whole 50), (.text "feed_rate_mm_min", .whole 100)])]

/-- The entries of a document with one laser under `lasers`, after some others. -/
def numberedEntries (others : Entries) : Entries :=
  others ++ [(.text "lasers", .mapping numberedLasers)]

/-- The first laser is read although its key is a number. Named by default, it is not found. -/
theorem follows_iff_numberedEntries :
    Follows #[] none (.mapping (numberedEntries [])) (numberedEntries []) numberedLasers
      (.whole 1) ∧
    IsMisled #[] none (numberedEntries [(.text "default_laser", .whole 1)]) numberedLasers ∧
      ¬Follows #[] none (.mapping (numberedEntries [(.text "default_laser", .whole 1)]))
        (numberedEntries [(.text "default_laser", .whole 1)]) numberedLasers (.whole 1) := by
  have hkeys : ∀ key ∈ numberedLasers.map Prod.fst, key.IsScalar := by
    rintro key (_ | ⟨_, ⟨⟩⟩)
    trivial
  have hfound : lookup? (.whole 1) numberedLasers = some _ := rfl
  constructor
  · have given : HasLasers #[] (numberedEntries []) numberedLasers := ⟨nofun, _, rfl, rfl⟩
    refine (follows_iff_not_isMisled rfl given hkeys).1 ?_
    rintro (⟨⟨⟩, -⟩ | ⟨-, ⟨⟩, -⟩ | ⟨-, ⟨⟩, -, -⟩ | ⟨-, ⟨⟩, -, -, -⟩ | ⟨-, ⟨⟩, -, -, -⟩ |
      ⟨-, ⟨⟩, -, -, -, -⟩)
  · -- The entries stay opaque, so that only what is asked of them is evaluated.
    generalize hentries : numberedEntries [(.text "default_laser", .whole 1)] = entries
    have given : HasLasers #[] entries numberedLasers := by
      rw [← hentries]
      exact ⟨nofun, _, rfl, rfl⟩
    have hdefault : defaultName? #[] entries = some (.whole 1) := by
      rw [← hentries]
      rfl
    have hwritten : (Document.whole 1).plainText? #[] = .ok "1" := by decide +kernel
    have hmisled : IsMisled #[] none entries numberedLasers :=
      .lookup rfl hdefault hfound hwritten rfl
    have hlayout : (Layout.ofRoot? #[] entries).toOption.isSome = true := by
      rw [← hentries]
      decide +kernel
    have hpreview : (PreviewStyle.ofRoot? #[] entries).toOption.isSome = true := by
      rw [← hentries]
      decide +kernel
    rcases hl : Layout.ofRoot? #[] entries with e | layout
    · rw [hl] at hlayout
      cases hlayout
    rcases hp : PreviewStyle.ofRoot? #[] entries with e | preview
    · rw [hp] at hpreview
      cases hpreview
    have hroot : rootEntries? #[] (.mapping entries) = some entries := by
      rw [← hentries]
      rfl
    refine ⟨hmisled, fun hfollows ↦ ?_⟩
    refine (follows_iff_not_isMisled hroot given hkeys).2.1 layout preview hl hp ?_ hmisled
    rwa [wantedKey_of_defaultName? hdefault]

end Config

end Engraving
