import ReactMigration.SymbolIndex

/-!
What a symbol index says about the declarations that it was built from.

The name under which a class is found is its own name, each role that templates use leads to a class
that is found under its name, and nothing is in the index that no unit declares.
-/

namespace ReactMigration

/-! ### Tables -/

namespace Table

variable {α : Type}

theorem get?_eq_none_iff (t : Table α) (key : String) : t.get? key = none ↔ t.has key = false := by
  simp [get?, has, List.find?_eq_none]

theorem mem_of_get? {t : Table α} {key : String} {value : α} (h : t.get? key = some value) :
    (key, value) ∈ t := by
  unfold get? at h
  cases found : t.find? (·.1 == key) with
  | none => simp [found] at h
  | some entry =>
      have same : entry.1 = key := by simpa using List.find?_some found
      have stored : entry.2 = value := by simpa [found] using h
      rw [← same, ← stored]
      exact List.mem_of_find?_eq_some found

theorem mem_set {t : Table α} {key : String} {value : α} {entry : String × α}
    (h : entry ∈ t.set key value) : entry = (key, value) ∨ entry ∈ t := by
  induction t with
  | nil => exact Or.inl (List.mem_singleton.mp h)
  | cons first rest ih =>
      simp only [set] at h
      split at h
      · rename_i same
        rcases List.mem_cons.mp h with rfl | tail
        · exact Or.inl (by rw [eq_of_beq same])
        · exact Or.inr (List.mem_cons_of_mem first tail)
      · rcases List.mem_cons.mp h with rfl | tail
        · exact Or.inr List.mem_cons_self
        · rcases ih tail with new | old
          · exact Or.inl new
          · exact Or.inr (List.mem_cons_of_mem first old)

theorem mem_keys_set {t : Table α} {key name : String} {value : α}
    (h : name = key ∨ name ∈ t.keys) : name ∈ (t.set key value).keys := by
  induction t with
  | nil => simpa [set, keys] using h
  | cons first rest ih =>
      simp only [set]
      split
      · rename_i same
        simpa [keys, eq_of_beq same] using h
      · simp only [keys, List.map_cons, List.mem_cons] at h ih ⊢
        rcases h with new | here | later
        · exact Or.inr (ih (Or.inl new))
        · exact Or.inl here
        · exact Or.inr (ih (Or.inr later))

/-- What is in a table was written or was there before. -/
theorem mem_foldl_set {β : Type} (key : β → String) (value : β → α) {entries : List β} {t : Table α}
    {entry : String × α} (mem : entry ∈ entries.foldl (fun t b => t.set (key b) (value b)) t) :
    (∃ b ∈ entries, entry = (key b, value b)) ∨ entry ∈ t := by
  induction entries generalizing t with
  | nil => exact .inr mem
  | cons b entries ih =>
      obtain ⟨later, listed, same⟩ | old := ih mem
      · exact .inl ⟨later, List.mem_cons_of_mem b listed, same⟩
      · exact (mem_set old).imp_left fun same => ⟨b, List.mem_cons_self, same⟩

/-- Every key that is written is among the keys. -/
theorem mem_keys_foldl_set {β : Type} (key : β → String) (value : β → α) (entries : List β) :
    ∀ {t : Table α} {name : String}, name ∈ entries.map key ∨ name ∈ t.keys →
      name ∈ (entries.foldl (fun t b => t.set (key b) (value b)) t).keys := by
  induction entries with
  | nil =>
      intro t name h
      simpa using h
  | cons b entries ih =>
      intro t name h
      rw [List.map_cons, List.mem_cons, or_assoc] at h
      rcases h with first | later | old
      · exact ih (Or.inr (mem_keys_set (Or.inl first)))
      · exact ih (Or.inl later)
      · exact ih (Or.inr (mem_keys_set (Or.inr old)))

theorem mem_setNew {t : Table α} {key : String} {value : α} {entry : String × α}
    (h : entry ∈ t.setNew key value) : entry ∈ t ∨ entry = (key, value) := by
  unfold setNew at h
  split at h
  · exact Or.inl h
  · simpa using h

/-- A new entry hides no old one. -/
theorem get?_setNew_of_some {t : Table α} {key name : String} {value old : α}
    (h : t.get? name = some old) : (t.setNew key value).get? name = some old := by
  unfold setNew
  split
  · exact h
  · simp only [get?, List.find?_append] at h ⊢
    cases found : t.find? (·.1 == name) with
    | none => simp [found] at h
    | some entry => simpa [found] using h

/-- A key that was free is found with its value. -/
theorem get?_setNew_self {t : Table α} {key : String} {value : α} (free : t.has key = false) :
    (t.setNew key value).get? key = some value := by
  have absent := (get?_eq_none_iff t key).mpr free
  simp only [get?, Option.map_eq_none_iff] at absent
  simp [setNew, free, get?, List.find?_append, absent]

theorem get?_setNew (t : Table α) (key name : String) (value : α) :
    (t.setNew key value).get? name =
      (t.get? name).or (if name = key then some value else none) := by
  by_cases free : t.has key = false
  · rw [setNew, if_neg (by simp [free])]
    simp only [get?, List.find?_append, Option.map_or]
    by_cases same : name = key
    · simp [same]
    · simp [same, Ne.symm same]
  · rw [setNew, if_pos (by simpa using free)]
    split
    · rename_i same
      rw [← get?_eq_none_iff, ← same] at free
      obtain ⟨old, found⟩ := Option.ne_none_iff_exists'.mp free
      simp [found]
    · simp

end Table

/-! ### Symbols -/

/-- The symbol that stands for a declaration. -/
def Symbol.ofDeclaration (d : Declaration) : Symbol :=
  ⟨d.name, d.kind, d.base.sourcePath, d⟩

namespace SymbolIndex

/-- Everything in the index is there for one of the declarations, under its own name, and each role
leads to a symbol that its name leads to as well. -/
structure Sound (ds : List Declaration) (index : SymbolIndex) : Prop where
  declared : ∀ name s, (name, s) ∈ index.symbols →
    name = s.name ∧ s.kind ≠ .routes ∧ ∃ d ∈ ds, s = .ofDeclaration d
  pipes : ∀ name s, (name, s) ∈ index.pipes → index.lookup s.name = some s
  elements : ∀ name s, (name, s) ∈ index.elements → index.lookup s.name = some s
  attributes : ∀ name s, (name, s) ∈ index.attributes → index.lookup s.name = some s

theorem Sound.empty : Sound [] {} := by
  constructor <;> intro name s h <;> simp at h

theorem Sound.weaken {ds ds' : List Declaration} {index : SymbolIndex} (h : Sound ds index)
    (sub : ∀ d ∈ ds, d ∈ ds') : Sound ds' index where
  declared name s hs := by
    obtain ⟨named, kind, d, hd, eq⟩ := h.declared name s hs
    exact ⟨named, kind, d, sub d hd, eq⟩
  pipes := h.pipes
  elements := h.elements
  attributes := h.attributes

theorem mem_claim {t : Table Symbol} {keys : List String} {s : Symbol} {entry : String × Symbol}
    (h : entry ∈ claim t keys s) : entry ∈ t ∨ entry.2 = s := by
  unfold claim at h
  induction keys generalizing t with
  | nil => exact Or.inl h
  | cons key keys ih =>
      rcases ih h with old | new
      · rcases Table.mem_setNew old with old | rfl
        · exact Or.inl old
        · exact Or.inr rfl
      · exact Or.inr new

/-- The roles of a symbol that its name leads to keep the index sound. -/
theorem Sound.addRoles {ds : List Declaration} {index : SymbolIndex} {s : Symbol}
    (h : Sound ds index) (found : index.lookup s.name = some s) : Sound ds (index.addRoles s) := by
  have claimed {t : Table Symbol} {keys : List String}
      (old : ∀ name s, (name, s) ∈ t → index.lookup s.name = some s) (name : String) (s' : Symbol)
      (hs : (name, s') ∈ claim t keys s) : index.lookup s'.name = some s' := by
    rcases mem_claim hs with stored | rfl
    · exact old name s' stored
    · exact found
  unfold SymbolIndex.addRoles
  extract_lets selected
  have sound (selector : Option String) : Sound ds (selected selector) := by
    unfold selected
    rcases parseSelector selector with ⟨elements, attributes⟩
    exact ⟨h.declared, h.pipes, claimed h.elements, claimed h.attributes⟩
  split
  · refine ⟨h.declared, fun name s' hs => ?_, h.elements, h.attributes⟩
    rcases Table.mem_setNew hs with stored | new
    · exact h.pipes name s' stored
    · cases new
      exact found
  · exact sound _
  · exact sound _
  · exact h

/-- A name that was free leads to its new symbol, and all old names lead where they led. -/
theorem Sound.addSymbol {ds : List Declaration} {index : SymbolIndex} {d : Declaration}
    (h : Sound ds index) (kind : d.kind ≠ .routes) (hd : d ∈ ds) :
    Sound ds { index with
      symbols := index.symbols.setNew d.name (.ofDeclaration d) } where
  declared name s hs := by
    rcases Table.mem_setNew hs with old | new
    · exact h.declared name s old
    · cases new
      exact ⟨rfl, kind, d, hd, rfl⟩
  pipes name s hs := Table.get?_setNew_of_some (h.pipes name s hs)
  elements name s hs := Table.get?_setNew_of_some (h.elements name s hs)
  attributes name s hs := Table.get?_setNew_of_some (h.attributes name s hs)

/-- Registering one of the declarations keeps the index sound. -/
theorem Sound.register {ds : List Declaration} {index next : SymbolIndex} {d : Declaration}
    {new : Bool} (h : Sound ds index) (hd : d ∈ ds) (hr : index.register d = .ok (new, next)) :
    Sound ds next := by
  unfold SymbolIndex.register at hr
  split at hr
  · cases hr
  · cases kind : d with
    | routes r =>
        subst kind
        cases hr
        exact ⟨h.declared, h.pipes, h.elements, h.attributes⟩
    | _ =>
        -- all other kinds share one branch: a free name is taken, and then its roles
        have notRoutes : d.kind ≠ .routes := by
          rw [kind]
          exact UnitKind.noConfusion
        simp only [kind] at hr
        rw [← kind] at hr
        split at hr
        · cases hr
          exact h
        · rename_i free
          cases hr
          refine (h.addSymbol notRoutes hd).addRoles ?_
          exact Table.get?_setNew_self (by simpa using free)

/-- Soundness does not depend on the units of types nor on the seal. -/
theorem Sound.registerTypes {ds : List Declaration} {index next : SymbolIndex} {path : String}
    (h : Sound ds index) (hr : index.registerTypes path = .ok next) : Sound ds next := by
  unfold SymbolIndex.registerTypes at hr
  split at hr
  · cases hr
  · split at hr
    · cases hr
      exact h
    · cases hr
      exact ⟨h.declared, h.pipes, h.elements, h.attributes⟩

theorem mem_registerTypes {index next : SymbolIndex} {path unit : String}
    (hr : index.registerTypes path = .ok next) (h : unit ∈ next.typesUnits) :
    unit ∈ index.typesUnits ∨ unit = path := by
  unfold SymbolIndex.registerTypes at hr
  split at hr
  · cases hr
  · split at hr
    · cases hr
      exact Or.inl h
    · cases hr
      simpa using h

theorem register_typesUnits {index next : SymbolIndex} {d : Declaration} {new : Bool}
    (hr : index.register d = .ok (new, next)) : next.typesUnits = index.typesUnits := by
  have roles (i : SymbolIndex) (s : Symbol) : (i.addRoles s).typesUnits = i.typesUnits := by
    unfold addRoles
    split <;> rfl
  unfold SymbolIndex.register at hr
  split at hr
  · cases hr
  · split at hr
    · cases hr
      rfl
    · split at hr
      · cases hr
        rfl
      · cases hr
        exact roles _ _

/-- A sound index whose units of types are all among the given ones. -/
def SoundFor (ds : List Declaration) (units : List String) (index : SymbolIndex) : Prop :=
  Sound ds index ∧ ∀ path ∈ index.typesUnits, path ∈ units

theorem SoundFor.sealed {ds : List Declaration} {units : List String} {index : SymbolIndex}
    (h : SoundFor ds units index) : SoundFor ds units index.sealed :=
  ⟨⟨h.1.declared, h.1.pipes, h.1.elements, h.1.attributes⟩, h.2⟩

/-- The index of a run is sound for the declarations and the units of types that were given. -/
theorem build_sound (ds : List Declaration) (units : List String) :
    SoundFor ds units (build ds units) := by
  refine SoundFor.sealed (List.foldlRecOn units _ (List.foldlRecOn ds _ ?_ ?_) ?_)
  · exact ⟨Sound.empty.weaken (by simp), by simp⟩
  · intro index h d hd
    split
    · rename_i next hr
      refine ⟨h.1.register hd hr, ?_⟩
      rw [register_typesUnits hr]
      exact h.2
    · exact h
  · intro index h path hp
    split
    · rename_i next hr
      refine ⟨h.1.registerTypes hr, fun unit hu => ?_⟩
      rcases mem_registerTypes hr hu with old | rfl
      · exact h.2 unit old
      · exact hp
    · exact h

/-! ### Looking names up -/

/-- The name of the symbol leads to it. -/
def Registered (index : SymbolIndex) (s : Symbol) : Prop :=
  index.lookup s.name = some s

variable {ds : List Declaration} {index : SymbolIndex} {name : String} {s : Symbol}

theorem Sound.ofLookup (h : Sound ds index) (found : index.lookup name = some s) :
    s.name = name ∧ s.kind ≠ .routes ∧ ∃ d ∈ ds, s = .ofDeclaration d := by
  obtain ⟨named, rest⟩ := h.declared name s (Table.mem_of_get? found)
  exact ⟨named.symm, rest⟩

/-- A registered symbol is the one of its declaration. -/
theorem Sound.eq_ofDeclaration (h : Sound ds index) (registered : index.Registered s) :
    s = .ofDeclaration s.declaration := by
  obtain ⟨_, _, d, _, eq⟩ := h.ofLookup registered
  rw [eq]
  rfl

theorem Sound.kind_eq (h : Sound ds index) (registered : index.Registered s) :
    s.kind = s.declaration.kind :=
  congrArg Symbol.kind (h.eq_ofDeclaration registered)

theorem Sound.registered_of_lookup (h : Sound ds index) (found : index.lookup name = some s) :
    index.Registered s := by
  unfold Registered
  rw [(h.ofLookup found).1]
  exact found

theorem Sound.registered_of_pipe (h : Sound ds index) (found : index.pipe name = some s) :
    index.Registered s :=
  h.pipes name s (Table.mem_of_get? found)

theorem Sound.registered_of_element (h : Sound ds index) (found : index.element name = some s) :
    index.Registered s :=
  h.elements name s (Table.mem_of_get? found)

end SymbolIndex

end ReactMigration
