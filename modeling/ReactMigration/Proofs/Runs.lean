import ReactMigration.Proofs.Items
import ReactMigration.Run.Migrate

/-!
Whole runs: the index of a run knows what its units declare, and a run with a valid configuration and
a readable unit comes to the conversion of its units.
-/

namespace ReactMigration

/-! ### The index of a run -/

def Work.declarations (works : List Work) : List Declaration :=
  (works.flatMap (·.items)).filterMap fun
    | .declaration d => some d
    | _ => none

theorem Work.mem_declarations {works : List Work} {d : Declaration} (h : d ∈ declarations works) :
    ∃ w ∈ works, .declaration d ∈ w.items := by
  obtain ⟨item, mem, is⟩ := List.mem_filterMap.mp h
  obtain ⟨w, hw, hi⟩ := List.mem_flatMap.mp mem
  cases item with
  | declaration d' =>
      cases is
      exact ⟨w, hw, hi⟩
  | stub m => cases is
  | types m => cases is

/-- The index of a run knows nothing but what its units declare. -/
theorem Work.index_sound (works : List Work) :
    SymbolIndex.Sound (declarations works) (index works) :=
  (SymbolIndex.build_sound _ _).1

theorem Work.exists_types {works : List Work} {path : String}
    (h : (index works).isTypesUnit path = true) :
    ∃ w ∈ works, ∃ m : TypesModel, .types m ∈ w.items ∧ m.sourcePath = path := by
  have listed : path ∈ (index works).typesUnits := by simpa [SymbolIndex.isTypesUnit] using h
  have given := (SymbolIndex.build_sound _ _).2 path listed
  obtain ⟨item, mem, is⟩ := List.mem_filterMap.mp given
  obtain ⟨w, hw, hi⟩ := List.mem_flatMap.mp mem
  cases item with
  | declaration d => cases is
  | stub m => cases is
  | types m => exact ⟨w, hw, m, hi, Option.some.inj is⟩

/-! ### Running -/

/-- A configuration that passes the check names a version of the view library. -/
theorem Config.validate_yields (c : Config) (sourceExists : Option Bool) :
    Yields (c.validate sourceExists) fun _ => ∃ major, c.reactMajor = .ok major := by
  unfold validate
  extract_lets flags last version workers output
  have named : Yields (last ()) fun _ => ∃ major, c.reactMajor = .ok major :=
    Yields.bind (fun major eq => ⟨major, eq⟩) fun _ known => .ok known
  have checked : Yields (version ()) fun _ => ∃ major, c.reactMajor = .ok major := by
    unfold version
    split
    · exact .error _
    · exact named
  have counted : Yields (workers ()) fun _ => ∃ major, c.reactMajor = .ok major := by
    unfold workers
    split
    · exact .error _
    · exact checked
  have placed : Yields (output ()) fun _ => ∃ major, c.reactMajor = .ok major := by
    unfold output
    split
    · exact .error _
    · exact counted
  split
  · exact .error _
  · exact placed

theorem Config.runSettings_order (c : Config) (order : NameOrder) : (c.runSettings order).order = order :=
  rfl

theorem migrate_yields (c : Config) (sources : Sources) (order : NameOrder) :
    Yields (migrate c sources order) fun r => (∃ major, c.reactMajor = .ok major) ∧
      ∃ entries, convertAll (c.runSettings order) (Work.index (Work.ofSources sources))
        (Work.ofSources sources) = .ok entries ∧ r = mergeOutputs entries := by
  have works : Yields (convertWorks (c.runSettings order) (Work.ofSources sources)) fun r =>
      ∃ entries, convertAll (c.runSettings order) (Work.index (Work.ofSources sources))
        (Work.ofSources sources) = .ok entries ∧ r = mergeOutputs entries :=
    Yields.bind (fun entries eq => eq) fun entries eq => .ok ⟨entries, eq, rfl⟩
  unfold migrate
  refine (c.validate_yields none).mapError.bind fun _ known => ?_
  dsimp only
  split
  · exact .error _
  · split
    · exact .error _
    · exact fun r made => ⟨known, works.mapError r made⟩

theorem migrate_readable {c : Config} {sources : Sources} {order : NameOrder} (valid : c.validate none = .ok ())
    {path text : String} (mem : (path, some text) ∈ sources) (unit : isSourceUnit path = true) :
    migrate c sources order =
      (convertWorks (c.runSettings order) (Work.ofSources sources)).mapError .fault := by
  have stages : migrate c sources order = (do
      (c.validate none).mapError .config
      if (sources.filter fun entry => isSourceUnit entry.1).isEmpty then throw .noUnits
      if (sources.filter fun entry => isSourceUnit entry.1).all fun entry => entry.2.isNone then
        throw .noneReadable
      (convertWorks (c.runSettings order) (Work.ofSources sources)).mapError .fault) := rfl
  have listed : (path, some text) ∈ sources.filter fun entry => isSourceUnit entry.1 :=
    List.mem_filter.mpr ⟨mem, unit⟩
  have nonempty : (sources.filter fun entry => isSourceUnit entry.1).isEmpty = false :=
    List.isEmpty_eq_false_iff_exists_mem.mpr ⟨_, listed⟩
  have readable : ((sources.filter fun entry => isSourceUnit entry.1).all
      fun entry => entry.2.isNone) = false :=
    List.all_eq_false.mpr ⟨_, listed, by simp⟩
  rw [stages, valid]
  dsimp only [Except.mapError, bind, Except.bind]
  rw [nonempty, readable]
  rfl

/-- A run completes only with valid options and a readable unit. -/
theorem migrate_started {c : Config} {sources : Sources} {order : NameOrder} {r : Table String × Report}
    (completed : migrate c sources order = .ok r) :
    c.validate none = .ok () ∧ ∃ path text, (path, some text) ∈ sources ∧ isSourceUnit path = true := by
  unfold migrate at completed
  obtain ⟨_, valid, completed⟩ := ok_of_bind completed
  constructor
  · cases checked : c.validate none with
    | error e =>
        rw [checked] at valid
        cases valid
    | ok _ => rfl
  · dsimp only at completed
    split at completed
    · cases completed
    · split at completed
      · cases completed
      · rename_i readable
        rw [Bool.not_eq_true, List.all_eq_false] at readable
        obtain ⟨⟨path, text⟩, mem, given⟩ := readable
        obtain ⟨listed, unit⟩ := List.mem_filter.mp mem
        cases text with
        | none => exact absurd rfl given
        | some text => exact ⟨path, text, listed, unit⟩

theorem validate_dryRun : Config.validate { dryRun := .bool true } none = .ok () := by
  decide +kernel

/-- A run with a readable unit completes if all its units can be converted. -/
theorem migrate_completes {c : Config} {sources : Sources} {order : NameOrder} (valid : c.validate none = .ok ())
    {path text : String} (readable : (path, some text) ∈ sources) (unit : isSourceUnit path = true)
    {works : List Work} (units : Work.ofSources sources = works)
    (converts : (convertWorks (c.runSettings order) works).isOk = true) :
    ∃ files report, migrate c sources order = .ok (files, report) := by
  rw [migrate_readable valid readable unit, units]
  cases converted : convertWorks (c.runSettings order) works with
  | error f =>
      rw [converted] at converts
      cases converts
  | ok r => exact ⟨r.1, r.2, rfl⟩

end ReactMigration
