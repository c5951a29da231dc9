import ReactMigration.Proofs.Items
import ReactMigration.Proofs.Substitution

/-!
Merging what the units of a run came to.

The merge goes through remarks and generated files in order of units, items and modules.  A path goes
to the first file that claims it, and a later file is reported unless both are shared modules.
-/

namespace ReactMigration

variable {α : Type}

/-! ### Tables -/

namespace Table

theorem get?_eq_some_iff {t : Table α} (distinct : t.keys.Nodup) {key : String} {value : α} :
    t.get? key = some value ↔ (key, value) ∈ t := by
  constructor
  · exact mem_of_get?
  · intro mem
    induction t with
    | nil => cases mem
    | cons entry t ih =>
        obtain ⟨k, v⟩ := entry
        obtain ⟨new, rest⟩ := List.nodup_cons.mp distinct
        rw [get?_cons]
        rcases List.mem_cons.mp mem with here | later
        · cases here
          rw [if_pos rfl]
        · have other : key ≠ k := by
            rintro rfl
            exact new (List.mem_map.mpr ⟨_, later, rfl⟩)
          rw [if_neg other]
          exact ih rest later

theorem get?_perm {t t' : Table α} (same : t.Perm t') (distinct : t.keys.Nodup) (key : String) :
    t.get? key = t'.get? key := by
  have distinct' : t'.keys.Nodup := (same.map Prod.fst).nodup_iff.mp distinct
  apply Option.ext
  intro value
  rw [get?_eq_some_iff distinct, get?_eq_some_iff distinct']
  exact same.mem_iff

theorem get?_map {β : Type} (f : α → β) (t : Table α) (key : String) :
    Table.get? (t.map fun entry => (entry.1, f entry.2)) key = (t.get? key).map f := by
  induction t with
  | nil => rfl
  | cons entry t ih =>
      rw [List.map_cons, get?_cons, get?_cons, ih]
      split <;> rfl

end Table

/-! ### What a merge meets -/

/-- A remark, or a file that a unit generated. -/
inductive MergeEvent where
  | remark (d : Diagnostic)
  | file (unit : String) (f : GeneratedFile)

namespace MergeEvent

def file? : MergeEvent → Option GeneratedFile
  | .remark _ => none
  | .file _ f => some f

/-- All generated files in order. -/
def files (events : List MergeEvent) : List GeneratedFile :=
  events.filterMap file?

/-- The first file with the path. -/
def producer? (events : List MergeEvent) (path : String) : Option GeneratedFile :=
  (files events).find? (·.path == path)

/-- What the report says about an event, given those before it. -/
def noted (before : List MergeEvent) : MergeEvent → List Diagnostic
  | .remark d => [d]
  | .file unit f =>
      match producer? before f.path with
      | none => []
      | some first =>
          if f.support && first.support then []
          else
            [{ unit, severity := .warning, code := .unsupportedConstruct
               message := s!"Output path {f.path} is already produced by {first.unit}; skipped" }]

/-- What the report says about all events, each in view of those before it. -/
def report (events : List MergeEvent) : List Diagnostic :=
  events.zipIdx.flatMap fun (e, position) => e.noted (events.take position)

def ofOutput (unit : String) (o : UnitOutput) : List MergeEvent :=
  o.diagnostics.map .remark ++ o.files.map (.file unit)

def ofEntry (entry : Work × List UnitOutput) : List MergeEvent :=
  entry.1.diagnostics.map .remark ++ entry.2.flatMap (ofOutput entry.1.path)

/-- All events in order of units, items and modules. -/
def all (entries : List (Work × List UnitOutput)) : List MergeEvent :=
  entries.flatMap ofEntry

theorem file_mem_all {entries : List (Work × List UnitOutput)} {unit : String} {f : GeneratedFile} :
    .file unit f ∈ all entries ↔
      ∃ entry ∈ entries, entry.1.path = unit ∧ ∃ o ∈ entry.2, f ∈ o.files := by
  unfold all
  rw [List.mem_flatMap]
  apply exists_congr
  intro entry
  apply and_congr_right
  intro _
  simp only [ofEntry, ofOutput, List.mem_append, List.mem_map, List.mem_flatMap, file.injEq,
    reduceCtorEq, and_false, exists_false, false_or]
  constructor
  · rintro ⟨o, ho, f', hf, rfl, rfl⟩
    exact ⟨rfl, o, ho, hf⟩
  · rintro ⟨rfl, o, ho, hf⟩
    exact ⟨o, ho, f, hf, rfl, rfl⟩

theorem mem_files {events : List MergeEvent} {f : GeneratedFile} :
    f ∈ files events ↔ ∃ unit, .file unit f ∈ events := by
  unfold files
  rw [List.mem_filterMap]
  constructor
  · rintro ⟨e, mem, is⟩
    cases e with
    | remark d => cases is
    | file unit f' =>
        cases is
        exact ⟨unit, mem⟩
  · rintro ⟨unit, mem⟩
    exact ⟨.file unit f, mem, rfl⟩

theorem producer?_remark (before : List MergeEvent) (d : Diagnostic) (path : String) :
    producer? (before ++ [.remark d]) path = producer? before path := by
  simp [producer?, files, file?]

theorem producer?_file (before : List MergeEvent) (unit : String) (f : GeneratedFile)
    (path : String) :
    producer? (before ++ [.file unit f]) path =
      (producer? before path).or (if path = f.path then some f else none) := by
  have last : [f].find? (·.path == path) = if path = f.path then some f else none := by
    by_cases same : path = f.path
    · simp [same]
    · simp [same, Ne.symm same]
  rw [producer?, files, List.filterMap_append, List.find?_append, ← last]
  rfl

theorem report_concat (before : List MergeEvent) (e : MergeEvent) :
    report (before ++ [e]) = report before ++ e.noted before := by
  have earlier : before.zipIdx.flatMap (fun p => p.1.noted ((before ++ [e]).take p.2)) =
      before.zipIdx.flatMap fun p => p.1.noted (before.take p.2) := by
    apply List.flatMap_congr
    intro p mem
    have bound := List.snd_lt_of_mem_zipIdx mem
    rw [List.take_append_of_le_length (by omega)]
  unfold report
  rw [List.zipIdx_append, List.flatMap_append, earlier]
  simp

end MergeEvent

/-! ### The merge -/

namespace Merged

def meet (m : Merged) : MergeEvent → Merged
  | .remark d => { m with diagnostics := m.diagnostics ++ [d] }
  | .file unit f => m.addFile unit f

theorem foldl_remarks (ds : List Diagnostic) (m : Merged) :
    (ds.map MergeEvent.remark).foldl meet m = { m with diagnostics := m.diagnostics ++ ds } := by
  induction ds generalizing m with
  | nil => simp
  | cons d ds ih => simp [ih, meet]

theorem addOutput_eq (unit : String) (m : Merged) (o : UnitOutput) :
    m.addOutput unit o = (MergeEvent.ofOutput unit o).foldl meet m := by
  rw [MergeEvent.ofOutput, List.foldl_append, foldl_remarks, List.foldl_map]
  rfl

theorem addWork_eq (m : Merged) (entry : Work × List UnitOutput) :
    m.addWork entry = (MergeEvent.ofEntry entry).foldl meet m := by
  have outputs : Merged.addOutput entry.1.path =
      fun m o => (MergeEvent.ofOutput entry.1.path o).foldl meet m := by
    funext m o
    exact addOutput_eq _ m o
  rw [MergeEvent.ofEntry, List.foldl_append, foldl_remarks, List.foldl_flatMap, ← outputs]
  rfl

/-- The merge has met the events: each path holds its first file, and the report is complete. -/
structure HasMet (m : Merged) (events : List MergeEvent) : Prop where
  files : ∀ path, m.files.get? path = MergeEvent.producer? events path
  distinct : m.files.keys.Nodup
  diagnostics : m.diagnostics = MergeEvent.report events

theorem HasMet.nil : Merged.HasMet {} [] :=
  ⟨fun _ => rfl, List.nodup_nil, rfl⟩

theorem HasMet.remark {m : Merged} {events : List MergeEvent} (h : m.HasMet events)
    (d : Diagnostic) : (m.meet (.remark d)).HasMet (events ++ [.remark d]) := by
  refine ⟨fun path => ?_, h.distinct, ?_⟩
  · rw [MergeEvent.producer?_remark, ← h.files]
    rfl
  · rw [MergeEvent.report_concat, ← h.diagnostics]
    rfl

theorem HasMet.fresh {m : Merged} {events : List MergeEvent} (h : m.HasMet events) {unit : String}
    {f : GeneratedFile} (free : m.files.get? f.path = none) :
    (m.addFile unit f).HasMet (events ++ [.file unit f]) := by
  have added : m.addFile unit f = { m with files := m.files ++ [(f.path, f)] } := by
    simp only [addFile, free]
  have first := h.files f.path
  rw [free] at first
  rw [added]
  constructor
  · intro path
    rw [MergeEvent.producer?_file, ← h.files, Table.get?_append, Table.get?_cons]
    rfl
  · have new : f.path ∉ m.files.keys := Table.get?_eq_none_iff_notMem.mp free
    rw [Table.keys, List.map_append]
    refine List.nodup_append.mpr ⟨h.distinct, by simp, ?_⟩
    rintro key old _ last rfl
    rw [List.mem_singleton.mp last] at old
    exact new old
  · rw [MergeEvent.report_concat, ← h.diagnostics]
    simp [MergeEvent.noted, ← first]

theorem HasMet.taken {m : Merged} {events : List MergeEvent} (h : m.HasMet events) {unit : String}
    {f first : GeneratedFile} (found : m.files.get? f.path = some first) :
    (m.addFile unit f).HasMet (events ++ [.file unit f]) := by
  have producer : MergeEvent.producer? events f.path = some first := by rw [← h.files, found]
  -- whether or not the clash is noted, the files stay as they are
  have kept : (m.addFile unit f).files = m.files := by
    simp only [addFile, found]
    split <;> rfl
  constructor
  · intro path
    rw [kept, MergeEvent.producer?_file, h.files]
    by_cases same : path = f.path
    · rw [same, producer]
      rfl
    · rw [if_neg same, Option.or_none]
  · rw [kept]
    exact h.distinct
  · rw [MergeEvent.report_concat, ← h.diagnostics]
    simp only [addFile, found, MergeEvent.noted, producer]
    split
    · simp
    · rfl

/-- One step of the merge. -/
theorem HasMet.meet {m : Merged} {events : List MergeEvent} (h : m.HasMet events) (e : MergeEvent) :
    (m.meet e).HasMet (events ++ [e]) := by
  cases e with
  | remark d => exact h.remark d
  | file unit f =>
      cases found : m.files.get? f.path with
      | none => exact h.fresh found
      | some first => exact h.taken found

theorem HasMet.run {m : Merged} {before : List MergeEvent} (h : m.HasMet before)
    (events : List MergeEvent) : (events.foldl Merged.meet m).HasMet (before ++ events) := by
  induction events generalizing m before with
  | nil => simpa using h
  | cons e events ih => simpa using ih (h.meet e)

theorem hasMet_all (entries : List (Work × List UnitOutput)) :
    (entries.foldl addWork {}).HasMet (MergeEvent.all entries) := by
  have works : Merged.addWork = fun m entry => (MergeEvent.ofEntry entry).foldl meet m := by
    funext m entry
    exact addWork_eq m entry
  rw [works, ← List.foldl_flatMap]
  exact HasMet.nil.run (MergeEvent.all entries)

end Merged

theorem mergeOutputs_get? (entries : List (Work × List UnitOutput)) (path : String) :
    (mergeOutputs entries).1.get? path =
      (MergeEvent.producer? (MergeEvent.all entries) path).map (·.text) := by
  have met := Merged.hasMet_all entries
  rw [← met.files, Table.get?_perm (List.mergeSort_perm _ fun a b => a.1 ≤ b.1).symm met.distinct]
  exact Table.get?_map _ _ _

theorem mergeOutputs_report (entries : List (Work × List UnitOutput)) :
    (mergeOutputs entries).2.diagnostics = MergeEvent.report (MergeEvent.all entries) :=
  (Merged.hasMet_all entries).diagnostics

/-! ### Entries of a run -/

section Entries

variable {settings : RunSettings} {index : SymbolIndex} {works : List Work}
  {entries : List (Work × List UnitOutput)}

theorem convertAll_entry (converted : convertAll settings index works = .ok entries)
    {entry : Work × List UnitOutput} (mem : entry ∈ entries) :
    entry.1 ∈ works ∧ ∀ o ∈ entry.2, ∃ item ∈ entry.1.items,
      convertItem settings index entry.1 item = .ok o := by
  obtain ⟨w, hw, made⟩ := mem_right_of_forall₂ (mapM_eq_ok converted).flip mem
  obtain ⟨outputs, each, made⟩ := ok_of_bind made
  cases made
  exact ⟨hw, fun o ho => mem_right_of_forall₂ (mapM_eq_ok each).flip ho⟩

theorem convertAll_works (converted : convertAll settings index works = .ok entries) :
    entries.map Prod.fst = works := by
  have each := mapM_eq_ok converted
  clear converted
  induction each with
  | nil => rfl
  | cons made _ ih =>
      obtain ⟨outputs, _, made⟩ := ok_of_bind made
      cases made
      rw [List.map_cons, ih]

end Entries

end ReactMigration
