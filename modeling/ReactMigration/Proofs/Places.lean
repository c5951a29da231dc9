import ReactMigration.Conversion.Regions
import ReactMigration.Proofs.Substitution

/-!
Places of a template, and what identifiers denote there.

In a template an identifier denotes what the innermost structural directive that declares it says,
or else a member of the component.  In generated code it is replaced by its code in the scope of the
place, and the names of that code refer to whatever loop around the place binds them.  The two agree
exactly when the code is the one of the declaration and no loop comes in between.
-/

namespace ReactMigration

open ReactMigration.Template
open ReactMigration.Text

/-! ### Regions -/

/-- The item of a loop in generated code. -/
def Template.Clauses.itemName (c : Clauses) : String :=
  if present c.item then c.item.getD "" else "item"

/-- The index of a loop in generated code: the first local for it, or a fixed name. -/
def Template.Clauses.indexName (c : Clauses) : String :=
  ((c.locals.find? (·.2 == "index")).map (·.1)).getD "index"

def lengthCode (iterable : String) : String :=
  (if Scope.accessPath.covers iterable then iterable else s!"({iterable})") ++ ".length"

/-- The code of a local of a loop, from what it is declared as. -/
def Template.Clauses.localCode? (c : Clauses) (iterable source : String) : Option String :=
  loopLocal? c.indexName (lengthCode iterable) source

/-- The names that a loop gives to its body. -/
def Template.Clauses.loopNames (c : Clauses) (iterable : String) : Table String :=
  Table.setAll (c.localCode? iterable) (Table.set [(c.itemName, c.itemName)] c.indexName c.indexName)
    c.locals

def aliasCode (condition : String) : String :=
  if isIdentifier condition then condition else s!"({condition})"

/-- What a structural directive encloses: the body of a loop over an iterable, what a condition shows,
or a part that declares nothing. -/
inductive Region where
  | loop (clauses : Clauses) (iterable : String)
  | condition (clauses : Clauses) (code : String)
  | plain

namespace Region

def names : Region → Table String
  | .loop c iterable => c.loopNames iterable
  | .condition c code => if present c.asName then [(c.asName.getD "", aliasCode code)] else []
  | .plain => []

def isLoop : Region → Bool
  | .loop _ _ => true
  | _ => false

/-- The names that generated code binds around the region. -/
def binds : Region → List String
  | .loop c _ => [c.indexName, c.itemName]
  | _ => []

/-- The names that the template declares for the region. -/
def declares : Region → List String
  | .loop c _ => c.locals.keys ++ (if present c.item then [c.item.getD ""] else [])
  | .condition c _ => if present c.asName then [c.asName.getD ""] else []
  | .plain => []

/-- The locals of a loop have distinct names. -/
def Distinct : Region → Prop
  | .loop c _ => c.locals.keys.Nodup
  | _ => True

instance : ∀ r : Region, Decidable r.Distinct
  | .loop c _ => inferInstanceAs (Decidable c.locals.keys.Nodup)
  | .condition _ _ => isTrue trivial
  | .plain => isTrue trivial

end Region

/-! ### Places -/

/-- A region around a place.  One that does not enclose the place in the template, because the place
is in a template that is shown there, is not visible. -/
structure Frame where
  region : Region
  visible : Bool := true

/-- The region declares the name for what it encloses in the template. -/
def Frame.declares (f : Frame) (name : String) : Bool :=
  f.visible && f.region.declares.contains name

/-- The regions around a place, the innermost first. -/
abbrev Place := List Frame

def Scope.within (base : Scope) : Place → Scope
  | [] => base
  | f :: place => (base.within place).child f.region.names f.region.isLoop

/-- What an identifier is replaced by at a place. -/
def Scope.codeAt (base : Scope) (place : Place) (name : String) : String :=
  ((base.within place).locals.get? name).getD name

/-- A variable of generated code: the item or the index of the loop inside so many regions, or one of
the component. -/
inductive Variable where
  | item (level : Nat)
  | index (level : Nat)
  | component (name : String)
  deriving Repr, DecidableEq

namespace Place

/-- What a name of generated code refers to.  The index of a loop comes after its item and hides
it. -/
def resolve : Place → String → Variable
  | [], name => .component name
  | ⟨.loop c _, _⟩ :: place, name =>
      if name = c.indexName then .index place.length
      else if name = c.itemName then .item place.length
      else resolve place name
  | _ :: place, name => resolve place name

/-- The region that declares a name, with what is around it. -/
def origin (place : Place) (name : String) : Place :=
  place.dropWhile fun f => !f.declares name

/-- The regions between a place and the region that declares a name. -/
def between (place : Place) (name : String) : Place :=
  place.takeWhile fun f => !f.declares name

end Place

/-! ### What identifiers denote -/

/-- A code together with what its names are to refer to. -/
structure Reading where
  code : String
  refers : List (String × Variable)

/-- What the names of a code refer to at a place. -/
def Place.names (place : Place) (code : String) : List (String × Variable) :=
  (Script.namesIn code).map fun name => (name, place.resolve name)

/-- What a local of a loop refers to: its own index, the iterable outside of it, or both. -/
def Template.Clauses.localVariables (c : Clauses) (iterable source : String) (outer : Place) :
    List (String × Variable) :=
  (if source = "count" then [] else [(c.indexName, .index outer.length)]) ++
    (if source = "last" ∨ source = "count" then outer.names iterable else [])

/-- What a name denotes that the region declares, if it stands for anything that is supported. -/
def Region.reading? (outer : Place) (name : String) : Region → Option Reading
  | .loop c iterable =>
      match c.locals.get? name with
      | some source =>
          if source = "index" then some ⟨c.indexName, [(c.indexName, .index outer.length)]⟩
          else (c.localCode? iterable source).map fun code =>
            ⟨code, c.localVariables iterable source outer⟩
      | none => some ⟨c.itemName, [(c.itemName, .item outer.length)]⟩
  | .condition _ code => some ⟨aliasCode code, outer.names code⟩
  | .plain => none

namespace Scope

/-- What a name denotes that no region declares: itself, or what the component's scope has for it. -/
def reading (base : Scope) (name : String) : Reading :=
  ⟨base.codeAt [] name, (base.locals.namesFor name).map fun name => (name, .component name)⟩

/-- What an identifier denotes at a place of the template. -/
def reading? (base : Scope) (place : Place) (name : String) : Option Reading :=
  match place.origin name with
  | [] => some (base.reading name)
  | f :: outer => f.region.reading? outer name

/-- The identifier denotes the same in generated code: its code is that of the declaration, and the
names of the code refer to the same variables. -/
def Denotes (base : Scope) (place : Place) (name : String) : Prop :=
  ∃ r, base.reading? place name = some r ∧ base.codeAt place name = r.code ∧
    ∀ v ∈ r.refers, place.resolve v.1 = v.2

instance (base : Scope) (place : Place) (name : String) : Decidable (base.Denotes place name) :=
  inferInstanceAs (Decidable (∃ r ∈ base.reading? place name, base.codeAt place name = r.code ∧
    ∀ v ∈ r.refers, place.resolve v.1 = v.2))

end Scope

/-- A loop that declares a name does not itself bind the names of its code otherwise. -/
def Region.Clear (name : String) : Region → Prop
  | .loop c iterable =>
      (c.locals.get? name = none → c.itemName ≠ c.indexName) ∧
        ∀ source ∈ c.locals.get? name, source = "last" ∨ source = "count" →
          ∀ y ∈ Script.namesIn iterable, y ≠ c.indexName ∧ y ≠ c.itemName
  | _ => True

instance (name : String) : ∀ r : Region, Decidable (r.Clear name)
  | .loop _ _ => inferInstanceAs (Decidable (_ ∧ _))
  | .condition _ _ => isTrue trivial
  | .plain => isTrue trivial

/-- What the innermost of the regions that write a name writes. -/
def Place.write? (place : Place) (name : String) : Option String :=
  place.findSome? fun f => f.region.names.get? name

/-- The declaring region writes the code of a name.  A further local for the index of a loop is not
written; what is around the loop may happen to have the same code for it. -/
def Scope.Supplies (base : Scope) (name : String) : Place → Prop
  | ⟨.loop c _, _⟩ :: outer => c.locals.get? name = some "index" →
      name = c.indexName ∨ (name ≠ c.itemName ∧ base.codeAt outer name = c.indexName)
  | _ => True

instance (base : Scope) (name : String) : ∀ place : Place, Decidable (base.Supplies name place)
  | [] => isTrue trivial
  | ⟨.loop _ _, _⟩ :: _ => inferInstanceAs (Decidable (_ → _))
  | ⟨.condition _ _, _⟩ :: _ => isTrue trivial
  | ⟨.plain, _⟩ :: _ => isTrue trivial

/-- An identifier is left alone on the way from its declaration to a place. -/
structure Scope.Keeps (base : Scope) (place : Place) (name : String) (r : Reading) : Prop where
  supplied : (place.between name).write? name = none → base.Supplies name (place.origin name)
  written : ∀ code ∈ (place.between name).write? name, code = r.code
  clear : ∀ f ∈ (place.origin name).head?, f.region.Clear name
  unbound : ∀ f ∈ place.between name, ∀ v ∈ r.refers, v.1 ∉ f.region.binds

/-- The identifier denotes something, and is left alone. -/
def Scope.Kept (base : Scope) (place : Place) (name : String) : Prop :=
  ∃ r ∈ base.reading? place name, base.Keeps place name r

instance (base : Scope) (place : Place) (name : String) (r : Reading) :
    Decidable (base.Keeps place name r) :=
  decidable_of_iff (_ ∧ _ ∧ _ ∧ _)
    ⟨fun ⟨a, b, c, d⟩ => Scope.Keeps.mk a b c d, fun ⟨a, b, c, d⟩ => ⟨a, b, c, d⟩⟩

instance (base : Scope) (place : Place) (name : String) : Decidable (base.Kept place name) :=
  inferInstanceAs (Decidable (∃ r ∈ base.reading? place name, base.Keeps place name r))

/-! ### Scopes -/

theorem Scope.child_get? (s : Scope) {names : Table String} (distinct : names.keys.Nodup)
    (loop : Bool) (name : String) :
    (s.child names loop).locals.get? name = (names.get? name).or (s.locals.get? name) := by
  have written := Table.get?_setAll some distinct s.locals name
  rw [Option.bind_fun_some] at written
  exact written

namespace Region

variable {c : Clauses} {iterable : String}

theorem nodup_keys_names (r : Region) : r.names.keys.Nodup := by
  cases r with
  | loop c iterable =>
      apply Table.nodup_keys_setAll
      exact Table.nodup_keys_set (by simp [Table.keys]) _ _
  | condition c code =>
      rw [names]
      split <;> simp [Table.keys]
  | plain => simp [names, Table.keys]

theorem loopNames_get? (distinct : c.locals.keys.Nodup) (name : String) :
    (c.loopNames iterable).get? name = ((c.locals.get? name).bind (c.localCode? iterable)).or
      (if name = c.indexName then some c.indexName
        else if name = c.itemName then some c.itemName else none) := by
  rw [Template.Clauses.loopNames, Table.get?_setAll _ distinct, Table.get?_set, Table.get?_cons]
  rfl

end Region

theorem Scope.nodup_keys_within {base : Scope} (distinct : base.locals.keys.Nodup) :
    ∀ place, (base.within place).locals.keys.Nodup
  | [] => distinct
  | f :: place => Table.nodup_keys_setAll some f.region.names (nodup_keys_within distinct place)

theorem Scope.codeAt_cons (base : Scope) (f : Frame) (place : Place) (name : String) :
    base.codeAt (f :: place) name = (f.region.names.get? name).getD (base.codeAt place name) := by
  rw [codeAt, within, child_get? _ f.region.nodup_keys_names]
  cases f.region.names.get? name <;> rfl

theorem Scope.codeAt_append (base : Scope) (inner place : Place) (name : String) :
    base.codeAt (inner ++ place) name = (inner.write? name).getD (base.codeAt place name) := by
  induction inner with
  | nil => rfl
  | cons f inner ih =>
      rw [List.cons_append, codeAt_cons, ih, Place.write?, Place.write?, List.findSome?_cons]
      cases f.region.names.get? name <;> rfl

/-! ### Variables -/

/-- The variable belongs to the component or to one of the outermost regions. -/
def Variable.Below (n : Nat) : Variable → Prop
  | .item level => level < n
  | .index level => level < n
  | .component _ => True

theorem Variable.Below.mono {n m : Nat} {v : Variable} (h : v.Below n) (le : n ≤ m) :
    v.Below m := by
  cases v with
  | item level => exact Nat.lt_of_lt_of_le h le
  | index level => exact Nat.lt_of_lt_of_le h le
  | component name => trivial

namespace Place

theorem between_append_origin (place : Place) (name : String) :
    place.between name ++ place.origin name = place :=
  List.takeWhile_append_dropWhile

theorem resolve_below (place : Place) (name : String) : (place.resolve name).Below place.length := by
  induction place, name using resolve.induct with
  | case1 name => trivial
  | case2 c iterable visible place =>
      rw [resolve, if_pos rfl]
      exact Nat.lt_succ_self _
  | case3 c iterable visible place other =>
      rw [resolve, if_neg other, if_pos rfl]
      exact Nat.lt_succ_self _
  | case4 c iterable visible place name notIndex notItem ih =>
      rw [resolve, if_neg notIndex, if_neg notItem]
      exact ih.mono (Nat.le_succ _)
  | case5 f place name other ih =>
      rw [resolve]
      · exact ih.mono (Nat.le_succ _)
      · exact other

theorem resolve_cons (f : Frame) (place : Place) {name : String} (free : name ∉ f.region.binds) :
    resolve (f :: place) name = resolve place name := by
  obtain ⟨⟨c, iterable⟩ | ⟨c, code⟩ | _, visible⟩ := f
  · obtain ⟨notIndex, notItem⟩ : name ≠ c.indexName ∧ name ≠ c.itemName := by
      simpa [Region.binds] using free
    rw [resolve, if_neg notIndex, if_neg notItem]
  · rfl
  · rfl

theorem resolve_bound (f : Frame) (place : Place) {name : String} (bound : name ∈ f.region.binds) :
    ¬ (resolve (f :: place) name).Below place.length := by
  obtain ⟨⟨c, iterable⟩ | ⟨c, code⟩ | _, visible⟩ := f
  · rw [resolve]
    split
    · exact Nat.lt_irrefl _
    · split
      · exact Nat.lt_irrefl _
      · simp_all [Region.binds]
  · cases bound
  · cases bound

/-- Inside further regions a name refers to an outer variable exactly when none of them binds it. -/
theorem resolve_append_eq_iff {inner place : Place} {name : String} {v : Variable}
    (below : v.Below place.length) : resolve (inner ++ place) name = v ↔
      (∀ f ∈ inner, name ∉ f.region.binds) ∧ resolve place name = v := by
  induction inner with
  | nil => simp
  | cons f inner ih =>
      by_cases bound : name ∈ f.region.binds
      · -- what a region binds lies further in than anything that is referred to from outside
        refine iff_of_false (fun same => ?_) fun h => h.1 f List.mem_cons_self bound
        refine resolve_bound f (inner ++ place) bound ?_
        rw [List.cons_append] at same
        exact same ▸ below.mono (by simp)
      · rw [List.cons_append, resolve_cons f _ bound, ih]
        simp [bound]

end Place

/-! ### Declarations -/

namespace Region

/-- What a loop declares: its index, a local computed from it, or its item. -/
theorem reading?_loop {c : Clauses} {iterable : String} {outer : Place} {name : String} {r : Reading}
    (found : (Region.loop c iterable).reading? outer name = some r) :
    (c.locals.get? name = some "index" ∧
        r = ⟨c.indexName, [(c.indexName, .index outer.length)]⟩) ∨
      (∃ source code, c.locals.get? name = some source ∧ source ≠ "index" ∧
        c.localCode? iterable source = some code ∧
        r = ⟨code, c.localVariables iterable source outer⟩) ∨
      (c.locals.get? name = none ∧ r = ⟨c.itemName, [(c.itemName, .item outer.length)]⟩) := by
  simp only [reading?] at found
  split at found
  · rename_i source declared
    split at found
    · rename_i isIndex
      exact .inl ⟨isIndex ▸ declared, (Option.some.inj found).symm⟩
    · rename_i other
      obtain ⟨code, made, same⟩ := Option.map_eq_some_iff.mp found
      exact .inr (.inl ⟨source, code, declared, other, made, same.symm⟩)
  · rename_i free
    exact .inr (.inr ⟨free, (Option.some.inj found).symm⟩)

/-- What a declared name refers to lies in the declaring region or outside of it. -/
theorem reading?_below {r : Region} {outer : Place} {name : String} {reading : Reading}
    (found : r.reading? outer name = some reading) {v : String × Variable}
    (mem : v ∈ reading.refers) : v.2.Below (outer.length + 1) := by
  have outside {code : String} (mem : v ∈ outer.names code) : v.2.Below (outer.length + 1) := by
    obtain ⟨y, _, rfl⟩ := List.mem_map.mp mem
    exact (outer.resolve_below y).mono (Nat.le_succ _)
  cases r with
  | loop c iterable =>
      rcases reading?_loop found with ⟨_, rfl⟩ | ⟨source, code, _, _, _, rfl⟩ | ⟨_, rfl⟩
      · obtain rfl := List.mem_singleton.mp mem
        exact Nat.lt_succ_self _
      · rcases List.mem_append.mp mem with own | around
        · split at own
          · cases own
          · obtain rfl := List.mem_singleton.mp own
            exact Nat.lt_succ_self _
        · split at around
          · exact outside around
          · cases around
      · obtain rfl := List.mem_singleton.mp mem
        exact Nat.lt_succ_self _
  | condition c code =>
      obtain rfl := Option.some.inj found
      exact outside mem
  | plain => cases found

/-- Names that are read outside of a region are read the same inside of it, unless it binds them. -/
theorem resolves_outer_iff (f : Frame) (outer : Place) (code : String) :
    (∀ v ∈ outer.names code, Place.resolve (f :: outer) v.1 = v.2) ↔
      ∀ y ∈ Script.namesIn code, y ∉ f.region.binds := by
  simp only [Place.names, List.forall_mem_map]
  refine forall₂_congr fun y _ => ?_
  simpa using @Place.resolve_append_eq_iff [f] outer y _ (outer.resolve_below y)

/-- Where a name is declared, the names of its code refer to what they should exactly when the region
leaves them clear. -/
theorem reading?_resolves_iff {r : Region} {visible : Bool} {outer : Place} {name : String}
    {reading : Reading} (found : r.reading? outer name = some reading) :
    (∀ v ∈ reading.refers, Place.resolve (⟨r, visible⟩ :: outer) v.1 = v.2) ↔ r.Clear name := by
  cases r with
  | loop c iterable =>
      have index : Place.resolve (⟨.loop c iterable, visible⟩ :: outer) c.indexName =
          .index outer.length := by
        rw [Place.resolve, if_pos rfl]
      rcases reading?_loop found with
        ⟨declared, rfl⟩ | ⟨source, code, declared, _, _, rfl⟩ | ⟨free, rfl⟩
      · simp [Clear, declared, index]
      · have own : ∀ v ∈ (if source = "count" then [] else [(c.indexName, Variable.index outer.length)]),
            Place.resolve (⟨.loop c iterable, visible⟩ :: outer) v.1 = v.2 := by
          intro v mem
          split at mem
          · cases mem
          · obtain rfl := List.mem_singleton.mp mem
            exact index
        simp only [Clear, declared, Template.Clauses.localVariables, List.forall_mem_append]
        rw [and_iff_right own]
        split
        · rename_i spans
          rw [resolves_outer_iff]
          simp [binds, spans]
        · rename_i apart
          simp [apart]
      · simp only [Clear, free, List.forall_mem_singleton, Place.resolve]
        by_cases same : c.itemName = c.indexName <;> simp [same]
  | condition c code =>
      obtain rfl := Option.some.inj found
      simp only [Clear, iff_true]
      rw [resolves_outer_iff]
      exact fun y _ => List.not_mem_nil
  | plain => cases found

/-- The region writes the code of what it declares, except for a further local for the index. -/
theorem names_get?_of_reading? {r : Region} {outer : Place} {name : String} {reading : Reading}
    (found : r.reading? outer name = some reading) (distinct : r.Distinct)
    (declared : name ∈ r.declares)
    (first : ∀ c iterable, r = .loop c iterable → c.locals.get? name = some "index" →
      name = c.indexName) : r.names.get? name = some reading.code := by
  cases r with
  | loop c iterable =>
      rw [names, loopNames_get? distinct]
      rcases reading?_loop found with ⟨isIndex, rfl⟩ | ⟨source, code, isLocal, _, made, rfl⟩ | ⟨free, rfl⟩
      · rw [isIndex, if_pos (first c iterable rfl isIndex)]
        rfl
      · simp [isLocal, made]
      · have item : name = c.itemName := by
          rw [Table.get?_eq_none_iff_notMem] at free
          rw [declares, List.mem_append, or_iff_right free] at declared
          split at declared
          · rename_i given
            rw [Template.Clauses.itemName, if_pos given]
            exact List.mem_singleton.mp declared
          · cases declared
        rw [free, item, if_pos rfl]
        split
        · rename_i same
          rw [same]
          rfl
        · rfl
  | condition c code =>
      obtain rfl := Option.some.inj found
      rw [declares] at declared
      split at declared
      · rename_i given
        rw [names, if_pos given, Table.get?_cons, if_pos (List.mem_singleton.mp declared)]
      · cases declared
  | plain => cases found

end Region

namespace Scope

variable {base : Scope} {place : Place} {name : String} {r : Reading}

theorem reading?_below (found : base.reading? place name = some r) {v : String × Variable}
    (mem : v ∈ r.refers) : v.2.Below (place.origin name).length := by
  unfold reading? at found
  split at found
  · obtain rfl := Option.some.inj found
    obtain ⟨y, _, rfl⟩ := List.mem_map.mp mem
    trivial
  · rename_i f outer here
    rw [here]
    exact Region.reading?_below found mem

theorem origin_resolves_iff (found : base.reading? place name = some r) :
    (∀ v ∈ r.refers, (place.origin name).resolve v.1 = v.2) ↔
      ∀ f ∈ (place.origin name).head?, f.region.Clear name := by
  unfold reading? at found
  split at found
  · rename_i here
    obtain rfl := Option.some.inj found
    simp [here, reading, Place.resolve]
  · rename_i f outer here
    rw [here]
    simpa using Region.reading?_resolves_iff found

/-- A further local for the index has the code of the index only by what is around the loop. -/
theorem further_code_iff {c : Clauses} {iterable : String} {visible : Bool} {outer : Place}
    (found : (Region.loop c iterable).reading? outer name = some r) (distinct : c.locals.keys.Nodup)
    (isIndex : c.locals.get? name = some "index") (notFirst : name ≠ c.indexName) :
    base.codeAt (⟨.loop c iterable, visible⟩ :: outer) name = r.code ↔
      base.Supplies name (⟨.loop c iterable, visible⟩ :: outer) := by
  have code : r.code = c.indexName := by
    rcases Region.reading?_loop found with ⟨_, rfl⟩ | ⟨source, _, other, differs, _⟩ | ⟨free, _⟩
    · rfl
    · exact absurd (Option.some.inj (other.symm.trans isIndex)) differs
    · rw [free] at isIndex
      cases isIndex
  have written : (Region.loop c iterable).names.get? name =
      if name = c.itemName then some c.itemName else none := by
    rw [Region.names, Region.loopNames_get? distinct, isIndex, if_neg notFirst]
    rfl
  rw [codeAt_cons, written, code]
  by_cases item : name = c.itemName
  · subst item
    simp [Supplies, isIndex, notFirst]
  · simp [Supplies, isIndex, item, notFirst]

/-- Where an identifier is declared, its code is the right one exactly when it is supplied. -/
theorem origin_code_iff (found : base.reading? place name = some r)
    (distinct : ∀ f ∈ place, f.region.Distinct) :
    base.codeAt (place.origin name) name = r.code ↔ base.Supplies name (place.origin name) := by
  unfold reading? at found
  split at found
  · rename_i here
    obtain rfl := Option.some.inj found
    rw [here]
    exact iff_of_true rfl trivial
  · rename_i f outer here
    have declared : f.declares name = true := by
      have stops := List.head?_dropWhile_not (fun f : Frame => !f.declares name) place
      rw [← Place.origin, here] at stops
      simpa using stops
    have mem : f ∈ place := by
      rw [← place.between_append_origin name, here]
      exact List.mem_append_right _ List.mem_cons_self
    have known : name ∈ f.region.declares := by
      simpa using (Bool.and_eq_true_iff.mp declared).2
    rw [here]
    -- a further local for the index is the one thing that a region declares and does not write
    by_cases further : ∃ c iterable, f.region = .loop c iterable ∧ c.locals.get? name = some "index" ∧
        name ≠ c.indexName
    · obtain ⟨c, iterable, isLoop, isIndex, notFirst⟩ := further
      obtain ⟨region, visible⟩ := f
      obtain rfl : region = .loop c iterable := isLoop
      exact further_code_iff found (distinct _ mem) isIndex notFirst
    · have first (c : Clauses) (iterable : String) (isLoop : f.region = .loop c iterable)
          (isIndex : c.locals.get? name = some "index") : name = c.indexName := by
        by_contra other
        exact further ⟨c, iterable, isLoop, isIndex, other⟩
      rw [codeAt_cons, Region.names_get?_of_reading? found (distinct f mem) known first,
        Option.getD_some]
      refine iff_of_true rfl ?_
      obtain ⟨⟨c, iterable⟩ | ⟨c, code⟩ | _, visible⟩ := f
      · exact fun isIndex => .inl (first c iterable rfl isIndex)
      · trivial
      · trivial

/-- An identifier denotes the same in generated code as in the template exactly when it is left alone
on the way from its declaration. -/
theorem denotes_iff (base : Scope) (distinct : ∀ f ∈ place, f.region.Distinct) (name : String) :
    base.Denotes place name ↔ base.Kept place name := by
  refine exists_congr fun r => and_congr_right fun found => ?_
  have code : base.codeAt place name = r.code ↔
      ((place.between name).write? name = none → base.Supplies name (place.origin name)) ∧
        ∀ code ∈ (place.between name).write? name, code = r.code := by
    rw [← origin_code_iff found distinct]
    nth_rewrite 1 [← place.between_append_origin name]
    rw [codeAt_append]
    cases (place.between name).write? name <;> simp
  have split (v : String × Variable) (mem : v ∈ r.refers) : place.resolve v.1 = v.2 ↔
      (∀ f ∈ place.between name, v.1 ∉ f.region.binds) ∧
        (place.origin name).resolve v.1 = v.2 := by
    rw [← Place.resolve_append_eq_iff (reading?_below found mem), Place.between_append_origin]
  rw [code]
  constructor
  · rintro ⟨⟨supplied, written⟩, refers⟩
    refine ⟨supplied, written, ?_, fun f hf v hv => ((split v hv).mp (refers v hv)).1 f hf⟩
    exact (origin_resolves_iff found).mp fun v hv => ((split v hv).mp (refers v hv)).2
  · rintro ⟨supplied, written, clear, unbound⟩
    refine ⟨⟨supplied, written⟩, fun v hv => (split v hv).mpr ⟨fun f hf => unbound f hf v hv, ?_⟩⟩
    exact (origin_resolves_iff found).mpr clear v hv

end Scope

end ReactMigration
