import ReactMigration.Proofs.ParsedFiles
import ReactMigration.Proofs.Runs

/-!
No import of a run dangles: whatever module a generated module imports, the run emits a module under
that reference, and in typed output its file is among the files of the run.
-/

namespace ReactMigration

/-- A run over the units emits the module, in the place of one of their items. -/
def Emits (works : List Work) (a : Artifact) (order : NameOrder := .written) : Prop :=
  ∃ w ∈ works, ∃ item ∈ w.items, ∃ as sink,
    item.modules (Work.index works) w order = .ok (as, sink) ∧ a ∈ as

/-! ### Targets -/

variable {works : List Work} {order : NameOrder}

/-- Every module that the index knows is emitted by the unit that declares it, or its stub is. -/
theorem emits_known (placed : ∀ w ∈ works, w.At w.path)
    (converted : ∀ w ∈ works, ∀ item ∈ w.items, ∃ as sink,
      item.modules (Work.index works) w order = .ok (as, sink))
    {t : ArtifactRef} (known : t.Known (Work.index works)) (own : (Support.find? t).isSome = false) :
    ∃ b, Emits works b order ∧ b.ref = t := by
  have offered {w : Work} {item : WorkItem} (hw : w ∈ works) (hi : item ∈ w.items)
      {as : List Artifact} {sink : Sink} (made : item.modules (Work.index works) w order = .ok (as, sink)) :
      item.Offers (Work.index works) as :=
    (WorkItem.modules_offer (Work.index_sound works) ((placed w hw).items item hi) made).2
  cases known with
  | shared found => simp [found] at own
  | types found =>
      obtain ⟨w, hw, m, hm, rfl⟩ := Work.exists_types found
      obtain ⟨as, sink, made⟩ := converted w hw _ hm
      obtain ⟨b, hb, same⟩ := (offered hw hm made).types m rfl
      exact ⟨b, ⟨w, hw, _, hm, as, sink, made, hb⟩, same⟩
  | @symbol s _ registered kind of =>
      obtain ⟨_, _, d, hd, eq⟩ := (Work.index_sound works).ofLookup registered
      subst eq
      obtain ⟨w, hw, hi⟩ := Work.mem_declarations hd
      obtain ⟨as, sink, made⟩ := converted w hw _ hi
      obtain ⟨b, hb, same⟩ := (offered hw hi made).gives d rfl registered kind _ of
      exact ⟨b, ⟨w, hw, _, hi, as, sink, made, hb⟩, same⟩

/-- Every import of an emitted module leads to a module that the same run emits under the very
reference that the importer uses; in typed output its file is written. -/
theorem import_targets_emitted (c : Config) (sources : Sources) (order : NameOrder) {files : Table String}
    {report : Report} (completed : migrate c sources order = .ok (files, report)) {a : Artifact}
    (emitted : Emits (Work.ofSources sources) a order) {spec : ImportSpec} (imported : spec ∈ a.imports)
    {t : ArtifactRef} (target : spec.target = some t) :
    ∃ b, Emits (Work.ofSources sources) b order ∧ b.ref = t ∧
      (c.useTypeScript.isSet = true → files.has (c.runSettings.layout.pathFor b) = true) := by
  obtain ⟨⟨major, known⟩, entries, converted, merged⟩ := migrate_yields c sources order _ completed
  have sound := Work.index_sound (Work.ofSources sources)
  -- a run that completes has converted every item
  have all (w : Work) (hw : w ∈ Work.ofSources sources) (item : WorkItem) (hi : item ∈ w.items) :
      ∃ as sink, item.modules (Work.index (Work.ofSources sources)) w order = .ok (as, sink) := by
    obtain ⟨_, _, _, o, _, made⟩ := convertAll_item converted hw hi
    rw [WorkItem.convertItem_eq, c.runSettings_order] at made
    cases modules : item.modules (Work.index (Work.ofSources sources)) w order with
    | error f =>
        rw [modules] at made
        cases made
    | ok r => exact ⟨r.1, r.2, rfl⟩
  have written {b : Artifact} (emits : Emits (Work.ofSources sources) b order)
      (typed : c.useTypeScript.isSet = true) :
      files.has (c.runSettings.layout.pathFor b) = true := by
    obtain ⟨w, hw, item, hi, as, sink, modules, hb⟩ := emits
    obtain ⟨entry, mem, _, o, ho, made⟩ := convertAll_item converted hw hi
    rw [WorkItem.convertItem_eq, c.runSettings_order, modules] at made
    cases made
    have version : (c.runSettings order).reactMajor = .ok major := by simp [Config.runSettings, known, Except.mapError]
    obtain ⟨made, generated, f, hf, path⟩ := filesOf_typed b sink.unit typed version
    have kept := mergeOutputs_has mem ho (mem_filesOfAll hb generated hf)
    rw [← merged, path] at kept
    exact kept
  suffices found : ∃ b, Emits (Work.ofSources sources) b order ∧ b.ref = t by
    obtain ⟨b, emits, ref⟩ := found
    exact ⟨b, emits, ref, written emits⟩
  obtain ⟨w, hw, item, hi, as, sink, made, ha⟩ := emitted
  have placed := Work.ofSources_at hw
  obtain ⟨_, offers⟩ := WorkItem.modules_offer sound (placed.items item hi) made
  have here {b : Artifact} (hb : b ∈ as) : Emits (Work.ofSources sources) b order :=
    ⟨w, hw, item, hi, as, sink, made, hb⟩
  cases shared : (Support.find? t).isSome with
  | true =>
      obtain ⟨b, hb, same⟩ := offers.shared a ha spec imported t target shared
      exact ⟨b, here hb, same⟩
  | false =>
      rcases offers.closed a ha spec imported t target with known | ⟨b, hb, same⟩
      · exact emits_known (fun _ => Work.ofSources_at) all known shared
      · exact ⟨b, here hb, same⟩

/-- The modules of a unit, of the items whose conversion ends well. -/
def Work.artifacts (w : Work) (index : SymbolIndex) : List Artifact :=
  w.items.flatMap fun item =>
    match item.modules index w with
    | .ok (as, _) => as
    | .error _ => []

theorem Work.modules_of_mem_artifacts {w : Work} {index : SymbolIndex} {a : Artifact}
    (h : a ∈ w.artifacts index) : ∃ item ∈ w.items, ∃ as sink, item.modules index w = .ok (as, sink) ∧ a ∈ as := by
  obtain ⟨item, hi, ha⟩ := List.mem_flatMap.mp h
  split at ha
  · rename_i as sink made
    exact ⟨item, hi, as, sink, made, ha⟩
  · cases ha

/-- A unit with a pipe, whose hook imports its function. -/
def pipeUnit : String × Option String :=
  ("a.ts", some "@Pipe(\x7bname: 'p'\x7d) class P \x7b transform(v) \x7b return v; \x7d \x7d")

theorem pipeUnit_isSourceUnit : isSourceUnit pipeUnit.1 = true :=
  isSourceUnit_iff.mpr (by decide)

theorem ofSources_pipeUnit :
    Work.ofSources [pipeUnit] = [Work.prepare [] pipeUnit.1 pipeUnit.2] :=
  Work.ofSources_single pipeUnit_isSourceUnit

theorem import_targets_emitted_pipeUnit :
    ∃ files report b, migrate { dryRun := .bool true } [pipeUnit] = .ok (files, report) ∧
      Emits (Work.ofSources [pipeUnit]) b ∧ b.ref = .pipeFunction "p" "a.ts" ∧
      files.has ({ dryRun := .bool true : Config }.runSettings.layout.pathFor b) = true := by
  have works := ofSources_pipeUnit
  obtain ⟨w, same⟩ : ∃ w, w = Work.prepare [] pipeUnit.1 pipeUnit.2 := ⟨_, rfl⟩
  obtain ⟨completes, imports⟩ : (match convertWorks { dryRun := .bool true : Config }.runSettings [w] with
      | .ok _ => true
      | .error _ => false) = true ∧ ((w.artifacts (Work.index [w])).any fun a =>
        a.imports.any (·.target == some (.pipeFunction "p" "a.ts"))) = true := by
    rw [same.trans (Work.prepare_chars [] "a.ts" String.toList_ofList)]
    decide +kernel
  rw [← same] at works
  have completed : ∃ r, migrate { dryRun := .bool true } [pipeUnit] = .ok r := by
    have unit : (pipeUnit.1, pipeUnit.2) ∈ [pipeUnit] := List.mem_singleton.mpr rfl
    rw [migrate_readable validate_dryRun unit pipeUnit_isSourceUnit, works]
    split at completes
    · rename_i r converted
      exact ⟨r, by rw [converted]; rfl⟩
    · cases completes
  obtain ⟨⟨files, report⟩, completed⟩ := completed
  obtain ⟨a, ha, imports⟩ := List.any_eq_true.mp imports
  obtain ⟨spec, hs, target⟩ := List.any_eq_true.mp imports
  have emitted : Emits (Work.ofSources [pipeUnit]) a := by
    rw [works]
    exact ⟨w, List.mem_singleton.mpr rfl, Work.modules_of_mem_artifacts ha⟩
  obtain ⟨b, emits, ref, written⟩ :=
    import_targets_emitted _ _ _ completed emitted hs (eq_of_beq target)
  exact ⟨files, report, b, completed, emits, ref, written rfl⟩

end ReactMigration
