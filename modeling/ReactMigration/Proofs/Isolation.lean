import ReactMigration.Proofs.ParsedFiles
import ReactMigration.Proofs.Runs
import ReactMigration.Proofs.SourceOrder

/-!
Units that declare nothing do not touch the others.

A unit that could not be read, or whose declarations are all refused, adds nothing to the index.  All
other units are then read and converted as they are without it, and files differ only where its own
stub claims a path.
-/

namespace ReactMigration

variable {settings : RunSettings} {index : SymbolIndex}

/-- The unit yields stubs at most: no declaration and no types. -/
def Work.DeclaresNothing (w : Work) : Prop :=
  ∀ item ∈ w.items, ∃ m, item = .stub m

theorem Work.index_skip {own : Work} (silent : own.DeclaresNothing) (before after : List Work) :
    Work.index (before ++ own :: after) = Work.index (before ++ after) := by
  have dropped {α : Type} (f : WorkItem → Option α) (stubs : ∀ m, f (.stub m) = none) :
      own.items.filterMap f = [] := by
    apply List.filterMap_eq_nil_iff.mpr
    intro item mem
    obtain ⟨m, rfl⟩ := silent item mem
    exact stubs m
  unfold Work.index
  simp only [List.flatMap_append, List.flatMap_cons, List.filterMap_append]
  rw [dropped _ fun _ => rfl, dropped _ fun _ => rfl]
  rfl

theorem convertAll_append (before after : List Work) :
    convertAll settings index (before ++ after) = (do
      let first ← convertAll settings index before
      let rest ← convertAll settings index after
      return first ++ rest) :=
  List.mapM_append

theorem convertAll_cons (w : Work) (works : List Work) :
    convertAll settings index (w :: works) = (do
      let outputs ← w.items.mapM (convertItem settings index w)
      let rest ← convertAll settings index works
      return (w, outputs) :: rest) := by
  unfold convertAll
  rw [List.mapM_cons]
  simp only [bind_assoc, pure_bind]

/-- Conversions that succeed with one more unit among the others succeed without it, with the same
outputs. -/
theorem convertAll_skip {before after : List Work} {own : Work}
    {entries : List (Work × List UnitOutput)}
    (converted : convertAll settings index (before ++ own :: after) = .ok entries) :
    ∃ first outputs rest, entries = first ++ (own, outputs) :: rest ∧
      convertAll settings index (before ++ after) = .ok (first ++ rest) := by
  rw [convertAll_append] at converted
  obtain ⟨first, hfirst, converted⟩ := ok_of_bind converted
  obtain ⟨later, hlater, converted⟩ := ok_of_bind converted
  rw [convertAll_cons] at hlater
  obtain ⟨outputs, _, hlater⟩ := ok_of_bind hlater
  obtain ⟨rest, hrest, hlater⟩ := ok_of_bind hlater
  cases hlater
  cases converted
  refine ⟨first, outputs, rest, rfl, ?_⟩
  rw [convertAll_append, hfirst, hrest]
  rfl

theorem MergeEvent.producer?_skip (entry : Work × List UnitOutput) {path : String}
    (elsewhere : ∀ o ∈ entry.2, ∀ f ∈ o.files, f.path ≠ path)
    (before after : List (Work × List UnitOutput)) :
    producer? (all (before ++ entry :: after)) path = producer? (all (before ++ after)) path := by
  have none : (files (ofEntry entry)).find? (·.path == path) = none := by
    apply List.find?_eq_none.mpr
    intro f mem claimed
    obtain ⟨unit, mem⟩ := mem_files.mp mem
    have single : .file unit f ∈ all [entry] := by simpa [all] using mem
    obtain ⟨_, same, _, o, ho, hf⟩ := file_mem_all.mp single
    rw [List.mem_singleton.mp same] at ho
    exact elsewhere o ho f hf (eq_of_beq claimed)
  simp only [producer?, all, files, List.flatMap_append, List.flatMap_cons, List.filterMap_append,
    List.find?_append] at none ⊢
  rw [none, Option.none_or]

/-- Beside a unit that declares nothing, every other unit is read and converted as it is without it,
and the files of the two runs agree at all paths that its own outputs leave alone. -/
theorem migrate_isolates {c : Config} {sources sources' : Sources} {order : NameOrder} {path : String}
    {text : Option String} (distinct : sources.keys.Nodup) (new : path ∉ sources.keys)
    (unit : isSourceUnit path = true) (inserted : sources'.Perm ((path, text) :: sources))
    (silent : (Work.prepare (Work.resourcesOf sources) path text).DeclaresNothing)
    {files files' : Table String} {report report' : Report}
    (without : migrate c sources order = .ok (files, report))
    (present : migrate c sources' order = .ok (files', report')) :
    ∃ before after outputs,
      convertAll (c.runSettings order) (Work.index (Work.ofSources sources)) (Work.ofSources sources) =
        .ok (before ++ after) ∧
      convertAll (c.runSettings order) (Work.index (Work.ofSources sources')) (Work.ofSources sources') =
        .ok (before ++ (Work.prepare (Work.resourcesOf sources) path text, outputs) :: after) ∧
      ∀ place, (∀ o ∈ outputs, ∀ f ∈ o.files, f.path ≠ place) →
        files'.get? place = files.get? place := by
  obtain ⟨_, entries, converted, merged⟩ := migrate_yields c sources order _ without
  obtain ⟨_, entries', converted', merged'⟩ := migrate_yields c sources' order _ present
  have distinct' : (Table.keys ((path, text) :: sources)).Nodup := List.nodup_cons.mpr ⟨new, distinct⟩
  have placed : Work.ofSources sources' = Work.ofSources ((path, text) :: sources) :=
    (Work.ofSources_perm inserted.symm distinct').symm
  obtain ⟨before, after, whole, rest⟩ := Work.ofSources_cons unit text sources
  -- the others are converted against the same index, whether or not the unit is there
  have index : Work.index (Work.ofSources sources') = Work.index (Work.ofSources sources) := by
    rw [placed, whole, rest]
    exact Work.index_skip silent before after
  rw [index, placed, whole] at converted'
  obtain ⟨first, outputs, later, rfl, others⟩ := convertAll_skip converted'
  rw [← rest, converted] at others
  cases others
  refine ⟨first, later, outputs, converted, ?_, ?_⟩
  · rw [index, placed, whole]
    exact converted'
  · intro place elsewhere
    have kept : files = (mergeOutputs (first ++ later)).1 := congrArg Prod.fst merged
    have mixed : files' = (mergeOutputs (first ++ (_, outputs) :: later)).1 :=
      congrArg Prod.fst merged'
    rw [kept, mixed, mergeOutputs_get?, mergeOutputs_get?,
      MergeEvent.producer?_skip _ elsewhere first later]

/-- A pipe without a name, which is refused. -/
def namelessPipe : String × Option String :=
  ("a.ts", some "@Pipe(\x7b\x7d) class A \x7b\x7d")

def plainService : String × Option String :=
  ("b.ts", some "@Injectable() class B \x7b\x7d")

def WorkItem.isStub : WorkItem → Bool
  | .stub _ => true
  | _ => false

theorem Work.declaresNothing_iff {w : Work} :
    w.DeclaresNothing ↔ w.items.all WorkItem.isStub = true := by
  rw [List.all_eq_true]
  refine forall₂_congr fun item _ => ?_
  cases item with
  | declaration d => simp [WorkItem.isStub]
  | stub m => simp [WorkItem.isStub]
  | types m => simp [WorkItem.isStub]

theorem migrate_isolates_namelessPipe :
    (Work.prepare [] namelessPipe.1 namelessPipe.2).DeclaresNothing ∧
    ∃ files report files' report',
      migrate { dryRun := .bool true } [plainService] = .ok (files, report) ∧
      migrate { dryRun := .bool true } [namelessPipe, plainService] = .ok (files', report') ∧
      ∃ before after outputs,
        convertAll { dryRun := .bool true : Config }.runSettings
          (Work.index (Work.ofSources [plainService])) (Work.ofSources [plainService]) =
          .ok (before ++ after) ∧
        convertAll { dryRun := .bool true : Config }.runSettings
          (Work.index (Work.ofSources [namelessPipe, plainService]))
          (Work.ofSources [namelessPipe, plainService]) =
          .ok (before ++ (Work.prepare [] namelessPipe.1 namelessPipe.2, outputs) :: after) ∧
        ∀ place, (∀ o ∈ outputs, ∀ f ∈ o.files, f.path ≠ place) →
          files'.get? place = files.get? place := by
  have unit : isSourceUnit namelessPipe.1 = true := isSourceUnit_iff.mpr (by decide)
  have other : isSourceUnit plainService.1 = true := isSourceUnit_iff.mpr (by decide)
  have resources : Work.resourcesOf [plainService] = [] := by simp [Work.resourcesOf, other]
  have pipe : Work.prepare [] namelessPipe.1 namelessPipe.2 = _ :=
    Work.prepare_chars [] "a.ts" String.toList_ofList
  have service : Work.prepare [] plainService.1 plainService.2 = _ :=
    Work.prepare_chars [] "b.ts" String.toList_ofList
  have silent : (Work.prepare [] namelessPipe.1 namelessPipe.2).DeclaresNothing := by
    rw [Work.declaresNothing_iff, pipe]
    decide +kernel
  have alone : ∃ files report, migrate { dryRun := .bool true } [plainService] = .ok (files, report) :=
    migrate_completes validate_dryRun List.mem_cons_self other
      (@Work.ofSources_single plainService.1 plainService.2 other) (by
        rw [service]
        decide +kernel)
  have both : ∃ files report,
      migrate { dryRun := .bool true } [namelessPipe, plainService] = .ok (files, report) :=
    migrate_completes validate_dryRun List.mem_cons_self unit
      (Work.ofSources_sorted (by simp [unit, other]) (by simp [namelessPipe, plainService])) (by
        rw [List.map_cons, List.map_singleton, pipe, service]
        decide +kernel)
  obtain ⟨files, report, without⟩ := alone
  obtain ⟨files', report', present⟩ := both
  have distinct : (Table.keys [plainService]).Nodup := by simp [Table.keys]
  have new : namelessPipe.1 ∉ Table.keys [plainService] := by decide
  have inserted : [namelessPipe, plainService].Perm
      ((namelessPipe.1, namelessPipe.2) :: [plainService]) :=
    List.Perm.refl _
  have undeclared : (Work.prepare (Work.resourcesOf [plainService]) namelessPipe.1
      namelessPipe.2).DeclaresNothing := by
    rw [resources]
    exact silent
  have isolated := migrate_isolates distinct new unit inserted undeclared without present
  rw [resources] at isolated
  exact ⟨silent, files, report, files', report', without, present, isolated⟩

end ReactMigration
