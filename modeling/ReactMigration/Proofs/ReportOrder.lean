import ReactMigration.Proofs.Runs
import ReactMigration.Proofs.SourceOrder

/-!
The order of what a run gives: files by path, and remarks by unit.

Everything noted while a unit is read, converted or merged is noted under its path, and the units of a
run are in order of their paths.
-/

namespace ReactMigration

/-! ### Remarks about a unit -/

namespace Work

/-- The file stands at the path, and all remarks are about it. -/
def SpeaksFor (path : String) (w : Work) : Prop :=
  w.path = path ∧ ∀ d ∈ w.diagnostics, d.unit = path

variable {path : String}

theorem SpeaksFor.concat {w : Work} (h : w.SpeaksFor path) {d : Diagnostic} (here : d.unit = path)
    (items : List WorkItem) :
    SpeaksFor path { w with diagnostics := w.diagnostics ++ [d], items } := by
  refine ⟨h.1, fun d' mem => ?_⟩
  rcases List.mem_append.mp mem with old | last
  · exact h.2 d' old
  · rw [List.mem_singleton.mp last]
    exact here

theorem readUnits_speaksFor (resources : Sources) (us : List SourceUnit) :
    ∀ {w : Work}, w.SpeaksFor path → (readSoFar (readUnits resources w us)).SpeaksFor path := by
  induction us with
  | nil => exact fun h => h
  | cons u us ih =>
      intro w h
      rw [readUnits]
      split
      · exact ih ⟨h.1, h.2⟩
      · exact ih (h.concat h.1 _)
      · exact h

theorem readFile_speaksFor (resources : Sources) (path text : String) :
    (readSoFar (readFile resources { path, text })).SpeaksFor path := by
  have start : SpeaksFor path { path, text } := ⟨rfl, fun _ mem => by cases mem⟩
  unfold readFile
  split
  · exact readUnits_speaksFor resources _ start
  · extract_lets noted
    have spoken (items : List WorkItem) : SpeaksFor path { noted with items } := start.concat rfl items
    split
    · split
      · exact spoken _
      · exact spoken _
    · exact spoken _

theorem prepare_speaksFor (resources : Sources) (path : String) (text : Option String) :
    (prepare resources path text).SpeaksFor path := by
  cases text with
  | none =>
      refine ⟨rfl, fun d mem => ?_⟩
      rw [List.mem_singleton.mp mem]
      rfl
  | some text =>
      have read := readFile_speaksFor resources path text
      rw [prepare_some]
      split
      · rename_i w ended
        rw [ended] at read
        exact read
      · rename_i f w broke
        rw [broke] at read
        exact read.concat rfl _

theorem ofSources_speaksFor {sources : Sources} {w : Work} (h : w ∈ ofSources sources) :
    ∀ d ∈ w.diagnostics, d.unit = w.path := by
  obtain ⟨path, text, _, _, rfl⟩ := mem_ofSources.mp h
  have speaks := prepare_speaksFor (resourcesOf sources) path text
  rw [speaks.1]
  exact speaks.2

end Work

section Converted

variable {settings : RunSettings} {index : SymbolIndex} {ds : List Declaration}

theorem filesOfAll_continues (settings : RunSettings) (as : List Artifact) (sink : Sink) :
    sink.Continues (filesOfAll settings sink as).2 := by
  induction as generalizing sink with
  | nil => exact .refl sink
  | cons a as ih =>
      rw [filesOfAll]
      split
      · exact ih sink
      · exact (sink.continues_add _ _ _ _ _).trans (ih _)

theorem convertItem_remarks (sound : SymbolIndex.Sound ds index) {w : Work} {item : WorkItem}
    {o : UnitOutput} (converted : convertItem settings index w item = .ok o) :
    ∀ d ∈ o.diagnostics, d.unit = w.path := by
  rw [WorkItem.convertItem_eq] at converted
  cases modules : item.modules index w settings.order with
  | error f =>
      rw [modules] at converted
      cases converted
  | ok r =>
      obtain ⟨as, sink⟩ := r
      rw [modules] at converted
      cases converted
      have empty : Sink.Own { unit := w.path } := fun _ mem => by cases mem
      have whole := (WorkItem.modules_continues sound modules).trans
        (filesOfAll_continues settings as sink)
      intro d mem
      exact (whole.own empty d mem).trans whole.unit

end Converted

/-! ### The report -/

namespace MergeEvent

def unit : MergeEvent → String
  | .remark d => d.unit
  | .file unit _ => unit

theorem noted_cases (before : List MergeEvent) (e : MergeEvent) :
    e.noted before = [] ∨ ∃ d, e.noted before = [d] ∧ d.unit = e.unit := by
  cases e with
  | remark d => exact .inr ⟨d, rfl, rfl⟩
  | file u f =>
      simp only [noted]
      split
      · exact .inl rfl
      · split
        · exact .inl rfl
        · exact .inr ⟨_, rfl, rfl⟩

theorem noted_unit {before : List MergeEvent} {e : MergeEvent} {d : Diagnostic}
    (mem : d ∈ e.noted before) : d.unit = e.unit := by
  rcases noted_cases before e with none | ⟨d', single, here⟩
  · rw [none] at mem
    cases mem
  · rw [single] at mem
    rw [List.mem_singleton.mp mem]
    exact here

/-- The report goes through the units in the order in which the events do. -/
theorem report_sorted {events : List MergeEvent}
    (sorted : events.Pairwise fun e e' => e.unit ≤ e'.unit) :
    (report events).Pairwise fun d d' => d.unit ≤ d'.unit := by
  have firsts : (events.zipIdx.map Prod.fst).Pairwise fun e e' => e.unit ≤ e'.unit := by
    simpa using sorted
  have indexed := List.pairwise_map.mp firsts
  unfold report
  refine List.pairwise_flatMap.mpr ⟨fun p _ => ?_, indexed.imp fun {p q} le d hd d' hd' => ?_⟩
  · rcases noted_cases (events.take p.2) p.1 with none | ⟨d, single, _⟩
    · simp [none]
    · simp [single]
  · rw [noted_unit hd, noted_unit hd']
    exact le

theorem all_sorted {entries : List (Work × List UnitOutput)}
    (own : ∀ entry ∈ entries, ∀ e ∈ ofEntry entry, e.unit = entry.1.path)
    (sorted : entries.Pairwise fun a b => a.1.path ≤ b.1.path) :
    (all entries).Pairwise fun e e' => e.unit ≤ e'.unit := by
  unfold all
  refine List.pairwise_flatMap.mpr ⟨fun entry mem => ?_, ?_⟩
  · refine List.Pairwise.imp_of_mem ?_ (List.pairwise_of_forall fun _ _ => trivial)
    intro e e' he he' _
    have same : e.unit = e'.unit := (own entry mem e he).trans (own entry mem e' he').symm
    exact same ▸ String.le_refl _
  · refine List.Pairwise.imp_of_mem ?_ sorted
    intro a b ha hb le e he e' he'
    rw [own a ha e he, own b hb e' he']
    exact le

end MergeEvent

section Run

variable {settings : RunSettings} {sources : Sources} {entries : List (Work × List UnitOutput)}

theorem mergeOutputs_files_strict (entries : List (Work × List UnitOutput)) :
    (mergeOutputs entries).1.Pairwise fun a b => a.1 < b.1 :=
  List.pairwise_map.mpr (Table.sort_strict (Merged.hasMet_all entries).distinct)

/-- The report of a run goes through its units in order. -/
theorem mergeOutputs_report_sorted (distinct : sources.keys.Nodup)
    (converted : convertAll settings (Work.index (Work.ofSources sources)) (Work.ofSources sources) =
      .ok entries) :
    (mergeOutputs entries).2.diagnostics.Pairwise fun d d' => d.unit ≤ d'.unit := by
  rw [mergeOutputs_report]
  apply MergeEvent.report_sorted
  apply MergeEvent.all_sorted
  · intro entry mem e he
    obtain ⟨hw, items⟩ := convertAll_entry converted mem
    rcases List.mem_append.mp he with own | later
    · obtain ⟨d, hd, rfl⟩ := List.mem_map.mp own
      exact Work.ofSources_speaksFor hw d hd
    · obtain ⟨o, ho, he⟩ := List.mem_flatMap.mp later
      rcases List.mem_append.mp he with remark | file
      · obtain ⟨d, hd, rfl⟩ := List.mem_map.mp remark
        obtain ⟨item, _, made⟩ := items o ho
        exact convertItem_remarks (Work.index_sound _) made d hd
      · obtain ⟨f, _, rfl⟩ := List.mem_map.mp file
        rfl
  · have works : (entries.map Prod.fst).Pairwise fun v w => v.path < w.path := by
      rw [convertAll_works converted]
      exact Work.ofSources_strict distinct
    refine (List.pairwise_map.mp works).imp fun lt => ?_
    exact String.not_lt.mp fun lt' => String.lt_irrefl _ (String.lt_trans lt lt')

end Run

end ReactMigration
