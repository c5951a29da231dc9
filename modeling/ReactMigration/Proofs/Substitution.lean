import ReactMigration.Proofs.Gathering
import ReactMigration.Proofs.Members

/-!
What stands for the identifiers of a template expression.

A template local stands for its code, and everything else for itself; members are addressed through
the instance until the expression is recast.
-/

namespace ReactMigration

open ReactMigration.Text

/-! ### Tables -/

namespace Table

variable {α : Type}

theorem get?_eq_none_iff_notMem {t : Table α} {name : String} :
    t.get? name = none ↔ name ∉ t.keys := by
  rw [get?, Option.map_eq_none_iff, List.find?_eq_none, keys, List.mem_map]
  simp only [beq_iff_eq, not_exists, not_and]

theorem get?_cons (key name : String) (value : α) (t : Table α) :
    Table.get? ((key, value) :: t) name = if name = key then some value else t.get? name := by
  by_cases same : name = key
  · simp [get?, same]
  · simp [get?, same, Ne.symm same]

theorem get?_set (t : Table α) (key name : String) (value : α) :
    (t.set key value).get? name = if name = key then some value else t.get? name := by
  induction t with
  | nil => rw [set, get?_cons]
  | cons entry t ih =>
      obtain ⟨k, v⟩ := entry
      by_cases here : k = key
      · rw [set, if_pos (beq_iff_eq.mpr here), get?_cons, get?_cons, here]
        split <;> rfl
      · rw [set, if_neg (by simpa using here), get?_cons, get?_cons, ih]
        split
        · rename_i same
          rw [if_neg (same ▸ here)]
        · rfl

theorem lookup_eq_get? (t : Table α) (name : String) : List.lookup name t = t.get? name := by
  induction t with
  | nil => rfl
  | cons entry t ih =>
      obtain ⟨k, v⟩ := entry
      rw [get?_cons, List.lookup_cons, ih]
      by_cases same : name = k
      · simp [same]
      · rw [beq_eq_false_iff_ne.mpr same, if_neg same]

theorem get?_append (t t' : Table α) (name : String) :
    Table.get? (t ++ t') name = (t.get? name).or (t'.get? name) := by
  simp [get?, List.find?_append, Option.map_or]

theorem nodup_keys_set {t : Table α} (h : t.keys.Nodup) (key : String) (value : α) :
    (t.set key value).keys.Nodup := by
  induction t with
  | nil => simp [set, keys]
  | cons entry t ih =>
      obtain ⟨k, v⟩ := entry
      obtain ⟨new, rest⟩ := List.nodup_cons.mp h
      rw [set]
      split
      · exact h
      · rename_i other
        refine List.nodup_cons.mpr ⟨fun mem => ?_, ih rest⟩
        obtain ⟨entry, written, same⟩ := List.mem_map.mp mem
        rcases mem_set written with here | old
        · exact other (beq_iff_eq.mpr (same.symm.trans (congrArg Prod.fst here)))
        · exact new (List.mem_map.mpr ⟨entry, old, same⟩)

theorem nodup_keys_setNew {t : Table α} (h : t.keys.Nodup) (key : String) (value : α) :
    (t.setNew key value).keys.Nodup := by
  unfold setNew
  split
  · exact h
  · rename_i free
    have new : key ∉ t.keys := by
      rw [← get?_eq_none_iff_notMem, get?_eq_none_iff]
      simpa using free
    rw [keys, List.map_append]
    refine List.nodup_append.mpr ⟨h, by simp, fun k mem k' last same => new ?_⟩
    have : key = k := (same.trans (List.mem_singleton.mp last)).symm
    exact this ▸ mem

/-- Writes the entries that have a value, one after the other. -/
def setAll {β : Type} (f : β → Option α) (t : Table α) (entries : Table β) : Table α :=
  entries.foldl (fun t entry =>
    match f entry.2 with
    | some value => t.set entry.1 value
    | none => t) t

theorem get?_setAll {β : Type} (f : β → Option α) {entries : Table β}
    (distinct : entries.keys.Nodup) (t : Table α) (name : String) :
    (setAll f t entries).get? name = ((entries.get? name).bind f).or (t.get? name) := by
  induction entries generalizing t with
  | nil => simp [setAll, get?]
  | cons entry entries ih =>
      obtain ⟨k, b⟩ := entry
      obtain ⟨new, rest⟩ := List.nodup_cons.mp distinct
      rw [setAll, List.foldl_cons, ← setAll, ih rest, get?_cons]
      by_cases same : name = k
      · subst same
        have absent : Table.get? entries name = none := get?_eq_none_iff_notMem.mpr new
        cases value : f b with
        | none => simp [absent, value]
        | some value' => simp [absent, value, get?_set]
      · cases value : f b with
        | none => simp [same]
        | some value' => simp [same, get?_set]

theorem nodup_keys_setAll {β : Type} (f : β → Option α) (entries : Table β) :
    ∀ {t : Table α}, t.keys.Nodup → (setAll f t entries).keys.Nodup := by
  induction entries with
  | nil => exact id
  | cons entry entries ih =>
      intro t h
      rw [setAll, List.foldl_cons, ← setAll]
      apply ih
      cases value : f entry.2 with
      | none => simpa [value] using h
      | some value' => simpa [value] using nodup_keys_set h entry.1 value'

/-- Where keys are distinct, leaving entries out leaves the other keys as they were. -/
theorem get?_filter {t : Table α} (h : t.keys.Nodup) (p : String × α → Bool) (name : String) :
    Table.get? (t.filter p) name = (Table.get? t name).filter fun value => p (name, value) := by
  induction t with
  | nil => rfl
  | cons entry t ih =>
      obtain ⟨k, v⟩ := entry
      obtain ⟨new, rest⟩ := List.nodup_cons.mp h
      rw [List.filter_cons, get?_cons]
      by_cases same : name = k
      · have absent : Table.get? t name = none := get?_eq_none_iff_notMem.mpr (same ▸ new)
        rw [if_pos same, Option.filter_some]
        split
        · rename_i kept
          rw [get?_cons, if_pos same, if_pos (same ▸ kept)]
        · rename_i dropped
          rw [ih rest, absent, if_neg (same ▸ dropped)]
          rfl
      · rw [if_neg same]
        split
        · rw [get?_cons, if_neg same, ih rest]
        · exact ih rest

end Table

/-! ### Identifiers -/

namespace Script

/-- The names that a text refers to. -/
def namesIn (text : String) : List String :=
  (extractIdentifiers text).toOption.getD []

/-- The text with references replaced by what stands for them. -/
def substitute (text : String) (tokens : List Token) (image : String → Option String) : String :=
  String.ofList (applyEdits ((references none tokens).filterMap fun t =>
    (image t.text).map fun code => (t.start, t.stop, code)) 0 text.toList)

theorem substitute_none (text : String) (tokens : List Token) :
    substitute text tokens (fun _ => none) = text := by
  simp [substitute, applyEdits]

/-- Renaming replaces the references of a text that can be read. -/
theorem renameIdentifiers_eq {text renamed : String} {mapping : List (String × String)}
    {tokens : List Token} (read : tokenize text = .ok tokens)
    (h : renameIdentifiers text mapping = .ok renamed) :
    renamed = substitute text tokens (fun name => mapping.lookup name) := by
  unfold renameIdentifiers at h
  split at h
  · rename_i empty
    rw [List.isEmpty_iff.mp empty]
    exact (Except.ok.inj h).symm.trans (substitute_none text tokens).symm
  · rw [read] at h
    exact (Except.ok.inj h).symm

end Script

/-- The names that the code of an identifier refers to. -/
def Table.namesFor (locals : Table String) (name : String) : List String :=
  match locals.get? name with
  | some code => Script.namesIn code
  | none => [name]

/-- What an identifier of an expression is replaced by; a local that stands for itself stays. -/
def RecastContext.image (ctx : RecastContext) (locals : Table String) (name : String) :
    Option String :=
  match (locals.setNew "$event" "event").get? name with
  | some code => if code = name then none else some code
  | none => if name ∈ ctx.members then some ("this." ++ name) else none

theorem Recast.expressionNames_lookup (ctx : RecastContext) {locals : Table String}
    (distinct : locals.keys.Nodup) (name : String) :
    (expressionNames ctx locals).lookup name = ctx.image locals name := by
  have own (l : List String) :
      Table.get? (l.map fun m => (m, "this." ++ m)) name =
        if name ∈ l then some ("this." ++ name) else none := by
    induction l with
    | nil => rfl
    | cons m l ih =>
        rw [List.map_cons, Table.get?_cons, ih]
        by_cases same : name = m <;> simp [same]
  have keys := Table.nodup_keys_setNew distinct "$event" "event"
  rw [Table.lookup_eq_get?, expressionNames, Table.get?_append, own, Table.get?_filter keys,
    RecastContext.image]
  cases found : (locals.setNew "$event" "event").get? name with
  | none =>
      have free := (Table.get?_eq_none_iff _ _).mp found
      simp [free]
  | some code =>
      have taken : (locals.setNew "$event" "event").has name = true := by
        by_contra free
        rw [(Table.get?_eq_none_iff _ _).mpr (by simpa using free)] at found
        cases found
      by_cases same : code = name
      · simp [taken, same]
      · simp [taken, same, Ne.symm same]

/-- The code is the source with its identifiers replaced, and then recast. -/
def Recasts (ctx : RecastContext) (locals : Table String) (source code : String) : Prop :=
  ∀ tokens, Script.tokenize (trim source) = .ok tokens →
    code = Recast.text ctx (Script.substitute (trim source) tokens (ctx.image locals))

theorem Converting.expression_recasts (ctx : RecastContext) {locals : Table String}
    (distinct : locals.keys.Nodup) (source : String) (d : Draft) :
    Runs (expression ctx locals source) d fun code _ => Recasts ctx locals source code := by
  refine .lifted_bind (.lift fun renamed done => done) fun renamed done => ?_
  refine (@body_prepares {} ctx renamed d).mono fun code _ ran tokens read => ?_
  rw [ran.1, Script.renameIdentifiers_eq read done, funext (Recast.expressionNames_lookup ctx distinct)]

end ReactMigration
