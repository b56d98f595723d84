import Engraving.CommandLine.Execution
import Engraving.Proofs.Except

/-!
# Runs on a workbench

A run on a workbench is a function: from what is on the disk follows what the run comes to, what it
writes and what it tells. This file says once for every kind of step which function that is. What is
told is described by the records that a part of a run makes, whatever the threshold:
`Workbench.tell` leaves out those below it.
-/

namespace Engraving

/-- A file that is written is put on top of the others. -/
theorem Disk.eq_of_write {d d' : Disk} {path : String} {content : FileContent}
    (h : d.write path content = .ok d') :
    d' = { d with written := (path, content) :: d.written } := by
  rw [Disk.write] at h
  split at h
  · cases h
  · split at h
    · cases h
    · exact (Except.ok.inj h).symm

namespace CommandLine

/-! ## Records -/

/-- The workbench after some records, of which those below the threshold are not told. -/
def Workbench.tell (threshold : LogLevel) (w : Workbench) (records : List LogRecord) : Workbench :=
  { w with told := (records.filter fun r ↦ threshold.passes r.level).reverse ++ w.told }

namespace Workbench

variable {threshold : LogLevel} {w : Workbench} {disk : Disk} {records : List LogRecord}

@[simp] theorem disk_tell : (w.tell threshold records).disk = w.disk := rfl

@[simp] theorem tell_with_disk :
    { w.tell threshold records with disk } = Workbench.tell threshold { w with disk } records := rfl

@[simp] theorem tell_tell (later : List LogRecord) :
    (w.tell threshold records).tell threshold later = w.tell threshold (records ++ later) := by
  simp [tell, List.filter_append, List.reverse_append]

end Workbench

/-! ## Steps -/

namespace Step

variable {α β ε : Type} {w v : Workbench} {x : Step (StateM Workbench) α}
  {f : α → Step (StateM Workbench) β}

/-- What follows a step is run on the workbench that the step leaves. -/
theorem run_bind (x : Step (StateM Workbench) α) (f : α → Step (StateM Workbench) β)
    (w : Workbench) :
    (x >>= f).run.run w
      = match x.run.run w with
        | (.ok a, v) => (f a).run.run v
        | (.error e, v) => (.error e, v) := by
  change (match x.run.run w with | (r, v) => ExceptT.bindCont f r v) = _
  rcases x.run.run w with ⟨_ | _, _⟩ <;> rfl

theorem run_ofExcept (failure : ε → RunError) (result : Except ε α) (w : Workbench) :
    (ofExcept failure result : Step (StateM Workbench) α).run.run w
      = (result.mapError failure, w) := rfl

theorem run_read (path : String) (w : Workbench) :
    (read path : Step (StateM Workbench) (List UInt8)).run.run w
      = ((w.disk.read path).mapError .file, w) := rfl

theorem host_write (path : String) (content : FileContent) (w : Workbench) :
    (Host.write path content : StateM Workbench (Except FileError Unit)).run w
      = match w.disk.write path content with
        | .ok disk => (.ok (), { w with disk })
        | .error e => (.error e, w) := by
  change (match w.disk.write path content with
    | .ok disk => _
    | .error e => _ : StateM Workbench (Except FileError Unit)).run w = _
  rcases w.disk.write path content with _ | _ <;> rfl

theorem run_write (path : String) (content : FileContent) (w : Workbench) :
    (write path content : Step (StateM Workbench) Unit).run.run w
      = match w.disk.write path content with
        | .ok disk => (.ok (), { w with disk })
        | .error e => (.error (.file e), w) := by
  change (match (Host.write path content : StateM Workbench (Except FileError Unit)).run w with
    | (r, v) => (r.mapError RunError.file, v)) = _
  rw [host_write]
  rcases w.disk.write path content with _ | _ <;> rfl

theorem run_note (threshold level : LogLevel) (message : String) (w : Workbench) :
    (note threshold level message : Step (StateM Workbench) Unit).run.run w
      = (.ok (), w.tell threshold [⟨level, message⟩]) := by
  rw [note]
  by_cases h : threshold.passes level
  · simp only [h, Workbench.tell, List.filter, if_true]
    rfl
  · simp only [h, Workbench.tell, List.filter]
    rfl

end Step

/-! ## Quiet steps -/

/-- Records none of which tells an error. -/
def IsQuiet (records : List LogRecord) : Prop := ∀ r ∈ records, r.level ≠ .error

theorem isQuiet_nil : IsQuiet [] := by rintro _ ⟨⟩

theorem IsQuiet.append {first later : List LogRecord} (hfirst : IsQuiet first)
    (hlater : IsQuiet later) : IsQuiet (first ++ later) := by
  intro r hr
  exact (List.mem_append.mp hr).elim (hfirst r) (hlater r)

namespace Step

variable {α β ε : Type} {d : Disk} {threshold : LogLevel}

/-- A step comes to a result on a disk, which it leaves as it is, and tells no error. -/
def Yields (x : Step (StateM Workbench) α) (threshold : LogLevel) (d : Disk)
    (result : Except RunError α) : Prop :=
  ∀ w : Workbench, w.disk = d →
    ∃ records, IsQuiet records ∧ x.run.run w = (result, w.tell threshold records)

namespace Yields

variable {x : Step (StateM Workbench) α} {f : α → Step (StateM Workbench) β}
  {result : Except RunError α} {next : α → Except RunError β}

theorem bind (hx : Yields x threshold d result)
    (hf : ∀ a, result = .ok a → Yields (f a) threshold d (next a)) :
    Yields (x >>= f) threshold d (result >>= next) := by
  intro w hw
  obtain ⟨first, hfirst, hrun⟩ := hx w hw
  rw [run_bind, hrun]
  rcases result with e | a
  · exact ⟨first, hfirst, rfl⟩
  · obtain ⟨later, hlater, hrun⟩ := hf a rfl (w.tell threshold first) hw
    refine ⟨first ++ later, hfirst.append hlater, ?_⟩
    rw [← Workbench.tell_tell]
    exact hrun

theorem pure (a : α) : Yields (Pure.pure a) threshold d (.ok a) :=
  fun _ _ ↦ ⟨[], isQuiet_nil, rfl⟩

theorem ofExcept (failure : ε → RunError) (result : Except ε α) :
    Yields (ofExcept failure result) threshold d (result.mapError failure) :=
  fun _ _ ↦ ⟨[], isQuiet_nil, rfl⟩

theorem read (path : String) :
    Yields (read path) threshold d ((d.read path).mapError .file) := by
  rintro w rfl
  exact ⟨[], isQuiet_nil, rfl⟩

theorem note {level : LogLevel} (hlevel : level ≠ .error) (message : String) :
    Yields (note threshold level message : Step (StateM Workbench) Unit) threshold d (.ok ()) := by
  intro w _
  refine ⟨[⟨level, message⟩], ?_, run_note threshold level message w⟩
  rintro _ hr
  rw [List.mem_singleton.mp hr]
  exact hlevel

theorem silent_bind {x : Step (StateM Workbench) Unit} {f : Unit → Step (StateM Workbench) β}
    {result : Except RunError β} (hx : Yields x threshold d (.ok ()))
    (hf : Yields (f ()) threshold d result) : Yields (x >>= f) threshold d result := by
  have h : Yields (x >>= f) threshold d (Except.ok () >>= fun _ ↦ result) := hx.bind fun _ _ ↦ hf
  exact h

theorem note_bind {level : LogLevel} (hlevel : level ≠ .error) (message : String)
    {f : Unit → Step (StateM Workbench) β} {result : Except RunError β}
    (hf : Yields (f ()) threshold d result) :
    Yields (CommandLine.note threshold level message >>= f) threshold d result :=
  silent_bind (note hlevel message) hf

/-- A step may be preceded by another one on a condition. -/
theorem ite_of_imp {p : Prop} [Decidable p] {x y : Step (StateM Workbench) α}
    (hx : Yields y threshold d result → Yields x threshold d result)
    (hy : Yields y threshold d result) :
    Yields (if p then x else y) threshold d result := by
  split
  · exact hx hy
  · exact hy

theorem forM {items : List α} {f : α → Step (StateM Workbench) PUnit}
    (hf : ∀ a ∈ items, Yields (f a) threshold d (.ok ())) :
    Yields (items.forM f) threshold d (.ok ()) := by
  induction items with
  | nil => exact pure ()
  | cons a rest ih =>
    exact silent_bind (hf a List.mem_cons_self) (ih fun b hb ↦ hf b (List.mem_cons_of_mem _ hb))

end Yields

end Step

/-! ## Configurations on a disk -/

/-- The configuration that is asked for. -/
def GlobalArguments.load? [DocumentReader] (a : GlobalArguments) (d : Disk) :
    Except LoadError Config :=
  match a.config?, a.profile? with
  | some path, profile? => Config.ofFile? profile? path (d.read path)
  | none, some _ => .error (.document (.invalid .profileAlone))
  | none, none => .ok {}

theorem run_loadConfig [DocumentReader] (a : GlobalArguments) (w : Workbench) :
    (loadConfig a : Step (StateM Workbench) Config).run.run w
      = ((a.load? w.disk).mapError .config, w) := by
  rw [loadConfig, GlobalArguments.load?]
  rcases a.config? with _ | path
  · rcases a.profile? with _ | _ <;> rfl
  · rfl

/-! ## Requests -/

theorem run_conclude (threshold : LogLevel) (start : String) (outcome : Except RunError Unit)
    (w : Workbench) :
    (conclude threshold start outcome : StateM Workbench (Except RunError Nat)).run w
      = match outcome with
        | .ok () => (.ok 0, w)
        | .error e =>
          if e.isTold then (.ok 1, w.tell threshold [⟨.error, start ++ e.message⟩])
          else (.error e, w) := by
  rcases outcome with e | ⟨⟩
  · by_cases h : e.isTold
    · have hpasses := threshold.passes_error
      simp only [conclude, h, note, hpasses, if_true, Workbench.tell, List.filter]
      rfl
    · simp only [conclude, h]
      rfl
  · rfl

section

variable [DocumentReader] [PictureDecoder] [RingMaker] {words : List String} {r : Request}

theorem runOn_eq (h : Request.ofWords? words = .ok r) (w : Workbench) :
    runOn words w = match r.arguments.load? w.disk with
      | .error e => (conclude r.arguments.threshold "Invalid configuration: " (.error (.config e)) :
          StateM Workbench (Except RunError Nat)).run w
      | .ok c =>
        match (perform r c : Step (StateM Workbench) Unit).run.run w with
        | (outcome, v) => (conclude r.arguments.threshold r.command.failureText outcome :
            StateM Workbench (Except RunError Nat)).run v := by
  have hload := run_loadConfig r.arguments w
  rw [runOn, runWords, h]
  simp only [Request.run]
  rw [StateT.run_bind, hload]
  rcases r.arguments.load? w.disk with e | c
  · rfl
  · rfl

/-- A run that succeeds has loaded a configuration and done what is requested. -/
theorem exists_of_runOn {w v : Workbench} (hwords : Request.ofWords? words = .ok r)
    (hrun : runOn words w = (.ok 0, v)) :
    ∃ c, r.arguments.load? w.disk = .ok c ∧
      (perform r c : Step (StateM Workbench) Unit).run.run w = (.ok (), v) := by
  have hend {start : String} {outcome : Except RunError Unit} {u : Workbench}
      (h : (conclude r.arguments.threshold start outcome :
        StateM Workbench (Except RunError Nat)).run u = (.ok 0, v)) :
      outcome = .ok () ∧ u = v := by
    rw [run_conclude] at h
    rcases outcome with e | ⟨⟩
    · simp only at h
      by_cases htold : e.isTold
      · rw [if_pos htold] at h
        cases (Prod.mk.inj h).1
      · rw [if_neg htold] at h
        cases (Prod.mk.inj h).1
    · exact ⟨rfl, (Prod.mk.inj h).2⟩
  rw [runOn_eq hwords] at hrun
  rcases hload : r.arguments.load? w.disk with e | c
  · rw [hload] at hrun
    cases (hend hrun).1
  · rw [hload] at hrun
    obtain ⟨houtcome, hv⟩ := hend hrun
    exact ⟨c, rfl, Prod.ext houtcome hv⟩

end

end CommandLine

end Engraving
