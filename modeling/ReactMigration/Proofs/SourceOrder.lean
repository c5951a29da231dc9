import ReactMigration.Proofs.Merging

/-!
The units of a run and the order in which its sources are given.

Units are read in order of their paths, and each consults the other sources only by looking resources
up.  Which units a run has, and in which order, is therefore decided by the sources as a mapping, and
one more unit takes its place among the others without touching them.
-/

namespace ReactMigration

variable {α : Type}

/-! ### Sorted tables -/

namespace Table

theorem keyLe_trans (a b c : String × α) (ab : decide (a.1 ≤ b.1) = true)
    (bc : decide (b.1 ≤ c.1) = true) : decide (a.1 ≤ c.1) = true := by
  simp only [decide_eq_true_eq] at ab bc ⊢
  exact String.le_trans ab bc

theorem keyLe_total (a b : String × α) : (decide (a.1 ≤ b.1) || decide (b.1 ≤ a.1)) = true := by
  simpa using String.le_total a.1 b.1

theorem sort_pairwise (t : Table α) :
    (t.mergeSort fun a b => a.1 ≤ b.1).Pairwise fun a b => a.1 ≤ b.1 := by
  have sorted := List.pairwise_mergeSort keyLe_trans keyLe_total t
  simpa only [decide_eq_true_eq] using sorted

theorem keys_sort_perm (t : Table α) :
    (Table.keys (t.mergeSort fun a b => a.1 ≤ b.1)).Perm t.keys :=
  (List.mergeSort_perm t _).map Prod.fst

theorem sort_strict {t : Table α} (distinct : t.keys.Nodup) :
    (t.mergeSort fun a b => a.1 ≤ b.1).Pairwise fun a b => a.1 < b.1 := by
  have apart : (t.mergeSort fun a b => a.1 ≤ b.1).Pairwise fun a b => a.1 ≠ b.1 :=
    List.pairwise_map.mp ((keys_sort_perm t).nodup_iff.mpr distinct)
  refine List.Pairwise.imp₂ ?_ (sort_pairwise t) apart
  intro a b le ne
  by_contra le'
  exact ne (String.le_antisymm le (String.not_lt.mp le'))

theorem sort_eq_of_perm {t t' : Table α} (same : t.Perm t') (distinct : t.keys.Nodup) :
    (t.mergeSort fun a b => a.1 ≤ b.1) = t'.mergeSort fun a b => a.1 ≤ b.1 := by
  have perm : (t.mergeSort fun a b => a.1 ≤ b.1).Perm (t'.mergeSort fun a b => a.1 ≤ b.1) :=
    (List.mergeSort_perm t _).trans (same.trans (List.mergeSort_perm t' _).symm)
  have distinct' : t'.keys.Nodup := (same.map Prod.fst).nodup_iff.mp distinct
  refine List.Perm.eq_of_pairwise ?_ (sort_strict distinct) (sort_strict distinct') perm
  intro a b _ _ ab ba
  exact absurd (String.lt_trans ab ba) (String.lt_irrefl _)

/-- A new key takes its place in a sorted table. -/
theorem sort_cons (entry : String × α) (t : Table α) :
    ∃ before after, ((entry :: t).mergeSort fun a b => a.1 ≤ b.1) = before ++ entry :: after ∧
      (t.mergeSort fun a b => a.1 ≤ b.1) = before ++ after := by
  obtain ⟨before, after, whole, rest, _⟩ := List.mergeSort_cons keyLe_trans keyLe_total entry t
  exact ⟨before, after, whole, rest⟩

end Table

/-! ### Resources -/

namespace Declaration

variable {resources resources' : Resources}

theorem resourceText_congr (same : ∀ path, resources.get? path = resources'.get? path) :
    resourceText resources = resourceText resources' := by
  funext u url
  unfold resourceText
  extract_lets path
  rw [same path]

theorem componentTemplate_congr (same : ∀ path, resources.get? path = resources'.get? path) :
    componentTemplate resources = componentTemplate resources' := by
  funext u m
  unfold componentTemplate
  rw [resourceText_congr same]

theorem buildComponent_congr (same : ∀ path, resources.get? path = resources'.get? path) :
    buildComponent resources = buildComponent resources' := by
  funext u m base members
  unfold buildComponent
  rw [resourceText_congr same, componentTemplate_congr same]

theorem read_congr (same : ∀ path, resources.get? path = resources'.get? path) :
    read resources = read resources' := by
  funext u
  unfold read
  rw [buildComponent_congr same]

end Declaration

namespace Work

variable {resources resources' : Sources}

theorem readUnits_congr (same : ∀ path, resources.get? path = resources'.get? path) (w : Work)
    (us : List SourceUnit) : readUnits resources w us = readUnits resources' w us := by
  induction us generalizing w with
  | nil => rfl
  | cons u us ih =>
      rw [readUnits, readUnits, Declaration.read_congr same]
      split
      · exact ih _
      · exact ih _
      · rfl

/-- Reading a unit depends on the texts of resources, not on their order. -/
theorem prepare_congr (same : ∀ path, resources.get? path = resources'.get? path) (path : String)
    (text : Option String) : prepare resources path text = prepare resources' path text := by
  cases text with
  | none => rfl
  | some text =>
      have files (w : Work) : readFile resources w = readFile resources' w := by
        unfold readFile
        split
        · exact readUnits_congr same w _
        · rfl
      rw [prepare_some, prepare_some, files]

/-! ### Units -/

def unitsOf (sources : Sources) : Sources :=
  sources.filter fun entry => isSourceUnit entry.1

theorem ofSources_units (sources : Sources) :
    ofSources sources = ((unitsOf sources).mergeSort fun a b => a.1 ≤ b.1).map fun entry =>
      prepare (resourcesOf sources) entry.1 entry.2 := by
  rw [ofSources_eq, List.partition_eq_filter_filter]
  rfl

theorem filter_keys_nodup {t : Table α} (distinct : t.keys.Nodup) (p : String × α → Bool) :
    (Table.keys (t.filter p)).Nodup :=
  distinct.sublist (List.filter_sublist.map Prod.fst)

theorem ofSources_perm {sources sources' : Sources} (same : sources.Perm sources')
    (distinct : sources.keys.Nodup) : ofSources sources = ofSources sources' := by
  have resources : ∀ path, (resourcesOf sources).get? path = (resourcesOf sources').get? path :=
    Table.get?_perm (same.filter _) (filter_keys_nodup distinct _)
  have units := Table.sort_eq_of_perm (same.filter fun entry => isSourceUnit entry.1)
    (filter_keys_nodup distinct _)
  rw [ofSources_units, ofSources_units, unitsOf, unitsOf, units]
  apply List.map_congr_left
  intro entry _
  exact prepare_congr resources entry.1 entry.2

theorem ofSources_cons {path : String} (unit : isSourceUnit path = true) (text : Option String)
    (sources : Sources) :
    ∃ before after, ofSources ((path, text) :: sources) =
        before ++ prepare (resourcesOf sources) path text :: after ∧
      ofSources sources = before ++ after := by
  have units : unitsOf ((path, text) :: sources) = (path, text) :: unitsOf sources :=
    List.filter_cons_of_pos unit
  have resources : resourcesOf ((path, text) :: sources) = resourcesOf sources :=
    List.filter_cons_of_neg (by simp [unit])
  obtain ⟨before, after, whole, rest⟩ := Table.sort_cons (path, text) (unitsOf sources)
  let read (entry : String × Option String) := prepare (resourcesOf sources) entry.1 entry.2
  refine ⟨before.map read, after.map read, ?_, ?_⟩
  · rw [ofSources_units, units, resources, whole, List.map_append, List.map_cons]
  · rw [ofSources_units, rest, List.map_append]

theorem ofSources_strict {sources : Sources} (distinct : sources.keys.Nodup) :
    (ofSources sources).Pairwise fun v w => v.path < w.path := by
  rw [ofSources_units]
  refine List.pairwise_map.mpr ?_
  refine (Table.sort_strict (filter_keys_nodup distinct _)).imp ?_
  intro a b lt
  rw [(prepare_at _ a.1 a.2).path, (prepare_at _ b.1 b.2).path]
  exact lt

end Work

end ReactMigration
