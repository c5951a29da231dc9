/-!
Tables keyed by text that remember the order in which keys were first written.
-/

namespace ReactMigration

/-- Entries by key, in order of first insertion; keys are distinct when built by `set`. -/
abbrev Table (α : Type) := List (String × α)

namespace Table

variable {α : Type}

/-- The value of a key. -/
def get? (t : Table α) (key : String) : Option α :=
  (t.find? (·.1 == key)).map (·.2)

/-- Whether a key is present. -/
def has (t : Table α) (key : String) : Bool :=
  t.any (·.1 == key)

/-- Writes a value: an existing key keeps its place, a new one goes last. -/
def set : Table α → String → α → Table α
  | [], key, value => [(key, value)]
  | (k, v) :: rest, key, value =>
      if k == key then (k, value) :: rest else (k, v) :: set rest key value

/-- The table of entries written in order, so that of two with one key the later wins. -/
def ofEntries (entries : List (String × α)) : Table α :=
  entries.foldl (fun t (key, value) => set t key value) []

/-- Writes a value unless the key is present. -/
def setNew (t : Table α) (key : String) (value : α) : Table α :=
  if has t key then t else t ++ [(key, value)]

/-- The keys in order. -/
def keys (t : Table α) : List String :=
  t.map (·.1)

/-- The values in order. -/
def values (t : Table α) : List α :=
  t.map (·.2)

end Table

end ReactMigration
