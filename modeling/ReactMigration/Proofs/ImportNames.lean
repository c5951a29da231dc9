import Mathlib.Data.List.Nodup
import ReactMigration.Printing.Modules
import ReactMigration.Proofs.ImportTargets
import ReactMigration.Proofs.UnitImports

/-!
The names that the import block of a generated module binds.

Names of libraries and of shared modules never clash with one another: each is listed for one place,
and imports of one place are one statement.  Names of the source's own classes, and names carried over
from its imports, may clash with them, with one another and with the module's own name.
-/

namespace ReactMigration

/-! ### Places -/

/-- Where an import is from and of what kind it is. -/
def ImportSpec.place (spec : ImportSpec) : Option String × Option ArtifactRef × Bool × Bool :=
  (spec.module, spec.target, spec.typeOnly, spec.prune)

namespace Imports

theorem samePlace_iff (a b : ImportSpec) : samePlace a b = true ↔ a.place = b.place := by
  simp [samePlace, ImportSpec.place, and_assoc]

/-- Imports of one place are one statement. -/
theorem add_places (i : Imports) (new : ImportSpec) :
    (i.add new).map (·.place) =
      if new.place ∈ i.map (·.place) then i.map (·.place) else i.map (·.place) ++ [new.place] := by
  induction i with
  | nil => simp [add, absorb, ImportSpec.place]
  | cons old rest ih =>
      unfold add
      split
      · rename_i same
        have place := (samePlace_iff old new).mp same
        rw [if_pos (by simp [place])]
        rfl
      · rename_i other
        have place : new.place ≠ old.place := fun same => other ((samePlace_iff old new).mpr same.symm)
        simp only [List.map_cons, ih, List.mem_cons, place, false_or]
        split <;> rfl

/-- No two statements are of one place. -/
theorem add_nodup {i : Imports} {new : ImportSpec} (h : (i.map (·.place)).Nodup) :
    ((i.add new).map (·.place)).Nodup := by
  rw [add_places]
  split
  · exact h
  · rename_i fresh
    exact List.nodup_append.mpr ⟨h, by simp, fun a ha b hb same => fresh (by simp_all)⟩

theorem gathered_nodup {T : ArtifactRef → Prop} {start i : Imports} (gathered : Gathered T start i)
    (h : (start.map (·.place)).Nodup) : (i.map (·.place)).Nodup := by
  induction gathered with
  | refl => exact h
  | tail _ step ih =>
      obtain ⟨new, -, rfl⟩ := step
      exact add_nodup ih

/-- An import after adding is an old one, or what was there for the place with the new names. -/
theorem mem_add {i : Imports} {new spec : ImportSpec} (h : spec ∈ i.add new) :
    spec ∈ i ∨ ∃ old, spec = absorb old new ∧ old.place = new.place ∧
      (old ∈ i ∨ old.names = [] ∧ old.default = none ∧ old.sideEffect = false) := by
  induction i with
  | nil => exact .inr ⟨_, List.mem_singleton.mp h, rfl, .inr ⟨rfl, rfl, rfl⟩⟩
  | cons old rest ih =>
      unfold add at h
      split at h
      · rename_i same
        rcases List.mem_cons.mp h with rfl | later
        · exact .inr ⟨old, rfl, (samePlace_iff old new).mp same, .inl List.mem_cons_self⟩
        · exact .inl (List.mem_cons_of_mem old later)
      · rcases List.mem_cons.mp h with rfl | later
        · exact .inl List.mem_cons_self
        · rcases ih later with here | ⟨old', same, place, mem | fresh⟩
          · exact .inl (List.mem_cons_of_mem old here)
          · exact .inr ⟨old', same, place, .inl (List.mem_cons_of_mem old mem)⟩
          · exact .inr ⟨old', same, place, .inr fresh⟩

/-- Whatever has been gathered was there at the start, or it was brought in for its place. -/
theorem exists_brings {T : ArtifactRef → Prop} {start i : Imports} (h : Gathered T start i) {spec : ImportSpec}
    (mem : spec ∈ i) : ∃ new, (new ∈ start ∨ Brings T new) ∧ new.place = spec.place := by
  induction h generalizing spec with
  | refl => exact ⟨spec, .inl mem, rfl⟩
  | tail _ step ih =>
      obtain ⟨new, brings, rfl⟩ := step
      rcases mem_add mem with old | ⟨old, rfl, place, _⟩
      · exact ih old
      · exact ⟨new, .inr brings, place.symm⟩

theorem mem_absorb_names {old new : ImportSpec} {n : String} (h : n ∈ (absorb old new).names) :
    n ∈ old.names ∨ n ∈ new.names := by
  refine List.foldlRecOn (motive := fun ns => n ∈ ns → n ∈ old.names ∨ n ∈ new.names) new.names _ .inl
    (fun ns before m hm mem => ?_) h
  split at mem
  · exact before mem
  · rcases List.mem_append.mp mem with mem | mem
    · exact before mem
    · rw [List.mem_singleton.mp mem]
      exact .inr hm

theorem absorb_names_nodup {old new : ImportSpec} (h : old.names.Nodup) :
    (absorb old new).names.Nodup := by
  refine List.foldlRecOn (motive := List.Nodup) new.names _ h fun ns nodup m _ => ?_
  split
  · exact nodup
  · rename_i fresh
    simp only [Bool.or_eq_true, List.contains_iff_mem, not_or] at fresh
    exact List.nodup_append.mpr ⟨nodup, by simp, fun a ha b hb same => fresh.2 (by simp_all)⟩

end Imports

/-! ### Libraries -/

/-- Whether an import is of a library or a shared module, by the converter's own choice. -/
def ImportSpec.isLibrary (spec : ImportSpec) : Bool :=
  !spec.prune && (spec.module.isSome || spec.target.any fun t => (Support.find? t).isSome)

theorem ImportSpec.isLibrary_congr {a b : ImportSpec} (h : a.place = b.place) :
    a.isLibrary = b.isLibrary := by
  simp only [place, Prod.mk.injEq] at h
  simp only [isLibrary, h.1, h.2.1, h.2.2.2]

/-- The name is listed for the place of the import. -/
def ImportSpec.Lists (spec : ImportSpec) (n : String) : Prop :=
  { names := [n], module := spec.module, target := spec.target, typeOnly := spec.typeOnly } ∈
    libraryImports

/-- Each name is listed for one place. -/
theorem libraryImports_unique :
    ∀ a ∈ libraryImports, ∀ b ∈ libraryImports, a.names = b.names → a = b := by
  decide +kernel

theorem libraryImports_single : ∀ a ∈ libraryImports, ∃ n, a = { a with names := [n] } ∧
    a.default = none ∧ a.sideEffect = false ∧ a.prune = false ∧ n ≠ "" ∧ n ≠ "React" ∧
      boundName n = n := by
  have single : ∀ a ∈ libraryImports, a = { a with names := [a.names.headD ""] } ∧
      a.default = none ∧ a.sideEffect = false ∧ a.prune = false ∧ a.names.headD "" ≠ "" ∧
        a.names.headD "" ≠ "React" ∧ boundName (a.names.headD "") = a.names.headD "" := by
    decide +kernel
  exact fun a mem => ⟨_, single a mem⟩

theorem libraryImports_view :
    ∀ a ∈ libraryImports, a.module = some "react" → a.target = none := by
  decide

/-- A listed name is bound as it is, and is not the view library itself. -/
theorem ImportSpec.Lists.plain {spec : ImportSpec} {n : String} (h : spec.Lists n) :
    n ≠ "React" ∧ boundName n = n := by
  obtain ⟨m, shape, _, _, _, _, other, bound⟩ := libraryImports_single _ h
  have same : n = m := List.singleton_inj.mp (congrArg ImportSpec.names shape)
  exact same ▸ ⟨other, bound⟩

theorem ImportSpec.isLibrary_prune {spec : ImportSpec} (h : spec.isLibrary = true) :
    spec.prune = false := by
  simp only [isLibrary, Bool.and_eq_true, Bool.not_eq_true'] at h
  exact h.1

/-- The place of what is carried over from a package. -/
def packagePlace (module : String) : Option String × Option ArtifactRef × Bool × Bool :=
  (some module, none, false, true)

/-- The place of what is carried over from a unit of types. -/
def typesPlace (path : String) : Option String × Option ArtifactRef × Bool × Bool :=
  (none, some (.types path), true, true)

/-- An import that is carried over from the source: of a package, or of a copy of types. -/
def ImportSpec.Carried (spec : ImportSpec) : Prop :=
  (∃ module, spec.place = packagePlace module) ∨ ∃ path, spec.place = typesPlace path

theorem ImportSpec.Carried.prune {spec : ImportSpec} (h : spec.Carried) : spec.prune = true := by
  obtain ⟨_, place⟩ | ⟨_, place⟩ := h <;> exact congrArg (·.2.2.2) place

theorem ImportSpec.Carried.not_library {spec : ImportSpec} (h : spec.Carried) : spec.isLibrary ≠ true := fun library => by
  have := isLibrary_prune library
  rw [h.prune] at this
  cases this

/-- An import of a library brings in listed names alone. -/
structure ImportSpec.Fits (spec : ImportSpec) : Prop where
  names : spec.names.Nodup
  library : spec.isLibrary = true → spec.default = none ∧ spec.sideEffect = false ∧
    spec.names ≠ [] ∧ ∀ n ∈ spec.names, spec.Lists n

/-- Imports with one statement for each place, those of libraries with listed names alone. -/
structure Imports.Tidy (i : Imports) : Prop where
  places : (i.map (·.place)).Nodup
  fits : ∀ spec ∈ i, spec.Fits

namespace Imports

theorem Tidy.nil : Tidy [] :=
  ⟨.nil, by simp⟩

variable {T : ArtifactRef → Prop}

/-- A listed import is taken in by what is there for its place. -/
theorem absorb_library {old new : ImportSpec} (listed : new ∈ libraryImports)
    (place : old.place = new.place) (default : old.default = none)
    (sideEffect : old.sideEffect = false) (lists : ∀ m ∈ old.names, old.Lists m) :
    (absorb old new).default = none ∧ (absorb old new).sideEffect = false ∧
      (absorb old new).names ≠ [] ∧ ∀ m ∈ (absorb old new).names, old.Lists m := by
  obtain ⟨n, shape, noDefault, plain, _, nonempty, _⟩ := libraryImports_single new listed
  have only : new.names = [n] := congrArg ImportSpec.names shape
  have here : old.Lists n := by
    have same : ({ names := [n], module := old.module, target := old.target,
                   typeOnly := old.typeOnly } : ImportSpec) = new := by
      simp only [ImportSpec.place, Prod.mk.injEq] at place
      cases new
      simp_all
    unfold ImportSpec.Lists
    rw [same]
    exact listed
  refine ⟨?_, ?_, ?_, fun m hm => ?_⟩
  · simp [absorb, noDefault, default, present]
  · simp [absorb, plain, sideEffect]
  · simp only [absorb, only, List.foldl_cons, List.foldl_nil]
    split
    · rename_i known
      simp only [Bool.or_eq_true, beq_iff_eq, nonempty, false_or, List.contains_iff_mem] at known
      exact List.ne_nil_of_mem known
    · simp
  · rcases mem_absorb_names hm with before | fresh
    · exact lists m before
    · rw [only, List.mem_singleton] at fresh
      exact fresh ▸ here

/-- What is brought in for the place of a library has been listed, unless it is of a unit's module that looks
like a shared one: anything else is for a place of another kind. -/
theorem listed_of_brings {new : ImportSpec} (brings : Brings T new) (own : ∀ t, T t → Support.find? t = none)
    (library : new.isLibrary = true) : new ∈ libraryImports := by
  cases brings with
  | library listed => exact listed
  | unit target module prune allowed =>
      simp [ImportSpec.isLibrary, target, module, own _ allowed] at library

/-- An import keeps the imports tidy if it is listed or not of a library. -/
theorem Tidy.add {i : Imports} {new : ImportSpec} (h : i.Tidy)
    (listed : new.isLibrary = true → new ∈ libraryImports) : (i.add new).Tidy := by
  refine ⟨add_nodup h.places, fun spec mem => ?_⟩
  · rcases mem_add mem with kept | ⟨old, rfl, place, before⟩
    · exact h.fits spec kept
    · have names : old.names.Nodup := by
        rcases before with mem | fresh
        · exact (h.fits old mem).names
        · simp [fresh.1]
      refine ⟨absorb_names_nodup names, fun library => ?_⟩
      have mem := listed (ImportSpec.isLibrary_congr (b := new) place ▸ library)
      rcases before with known | ⟨none, default, sideEffect⟩
      · obtain ⟨default, sideEffect, _, lists⟩ := (h.fits old known).library library
        exact absorb_library mem place default sideEffect lists
      · exact absorb_library mem place default sideEffect (by simp [none])

theorem Tidy.ofGathered {i j : Imports} (h : i.Tidy) (gathered : Gathered T i j)
    (own : ∀ t, T t → Support.find? t = none) : j.Tidy := by
  induction gathered with
  | refl => exact h
  | tail _ step ih =>
      obtain ⟨spec, brings, rfl⟩ := step
      exact ih.add (listed_of_brings brings own)

/-- The import of one name, as it is carried over. -/
theorem carryOne_induction {motive : Imports → Prop} (index : SymbolIndex) (sourcePath : String) (d : ImportDecl)
    {i : Imports} (start : motive i)
    (add : ∀ i new, motive i → new.Carried → motive (i.add new)) : motive (carryOne index sourcePath i d) := by
  have each {names : List String} {spec : String → ImportSpec} (carried : ∀ n, (spec n).Carried) {i : Imports}
      (h : motive i) : motive (names.foldl (fun i n => i.add (spec n)) i) :=
    List.foldlRecOn names _ h fun i h n _ => add i _ h (carried n)
  unfold carryOne
  extract_lets streams names path whole default
  have wholes : motive whole := by
    unfold whole
    split
    · exact add i _ start (.inl ⟨_, rfl⟩)
    · exact start
  have defaults : motive default := by
    unfold default
    split
    · exact add whole _ wholes (.inl ⟨_, rfl⟩)
    · exact wholes
  split
  · exact start
  · split
    · split
      · exact each (fun n => .inr ⟨path, rfl⟩) start
      · exact start
    · exact each (fun n => .inl ⟨_, rfl⟩) defaults

theorem carry_induction {motive : Imports → Prop} (index : SymbolIndex) (sourcePath : String) (ds : List ImportDecl)
    (start : motive []) (add : ∀ i new, motive i → new.Carried → motive (i.add new)) :
    motive (carry index sourcePath [] ds) :=
  List.foldlRecOn ds _ start fun _ h d _ => carryOne_induction index sourcePath d h add

theorem carry_tidy (index : SymbolIndex) (sourcePath : String) (ds : List ImportDecl) :
    (carry index sourcePath [] ds).Tidy :=
  carry_induction index sourcePath ds .nil fun _ _ h carried => h.add fun library => absurd library carried.not_library

/-- All that is carried over is carried over as such. -/
theorem carry_carried (index : SymbolIndex) (sourcePath : String) (ds : List ImportDecl) :
    ∀ spec ∈ carry index sourcePath [] ds, spec.Carried := by
  refine carry_induction (motive := fun i => ∀ spec ∈ i, spec.Carried) index sourcePath ds (by simp) ?_
  intro i new h carried spec mem
  rcases mem_add mem with kept | ⟨old, rfl, place, -⟩
  · exact h spec kept
  · unfold ImportSpec.Carried
    rw [show (absorb old new).place = new.place from place]
    exact carried

/-- Of two imports of libraries with a name in common the place is the same. -/
theorem Tidy.place_eq {i : Imports} (h : i.Tidy) {a b : ImportSpec} (ha : a ∈ i) (hb : b ∈ i)
    (la : a.isLibrary = true) (lb : b.isLibrary = true) {n : String} (na : n ∈ a.names)
    (nb : n ∈ b.names) : a.place = b.place := by
  have one := libraryImports_unique _ (((h.fits a ha).library la).2.2.2 n na) _
    (((h.fits b hb).library lb).2.2.2 n nb) rfl
  simp only [ImportSpec.mk.injEq] at one
  simp [ImportSpec.place, one, ImportSpec.isLibrary_prune la, ImportSpec.isLibrary_prune lb]

end Imports

/-! ### Import blocks -/

namespace Printing

/-- The default import of an import in the finished module. -/
def keptDefault (settings : Settings) (body : String) (reactDefault : Bool) (spec : ImportSpec) :
    Option String :=
  if moduleOf settings spec == "react" && !spec.typeOnly && reactDefault then some "React"
  else if spec.prune && present spec.default && !isReferenced (spec.default.getD "") body then none
  else spec.default

/-- The names of an import in the finished module. -/
def keptNames (body : String) (spec : ImportSpec) : List String :=
  let names := spec.names.mergeSort (· ≤ ·)
  if spec.prune then names.filter (isReferenced · body) else names

/-- The local names that the statement of an import binds. -/
def localNames (settings : Settings) (body : String) (reactDefault : Bool) (spec : ImportSpec) :
    List String :=
  if spec.sideEffect then []
  else
    let default := keptDefault settings body reactDefault spec
    ((if present default then [default.getD ""] else []) ++ keptNames body spec).map boundName

theorem importLine_eq (settings : Settings) (body : String) (reactDefault : Bool) (spec : ImportSpec) :
    importLine settings body reactDefault spec =
      if spec.sideEffect then some ("import " ++ quoteText (moduleOf settings spec) ++ ";")
      else if (keptNames body spec).isEmpty && !present (keptDefault settings body reactDefault spec) then
        none
      else some (importStatement (moduleOf settings spec) (keptDefault settings body reactDefault spec)
        (keptNames body spec) spec.typeOnly) :=
  rfl

theorem localNames_of_importLine {settings : Settings} {body : String} {reactDefault : Bool}
    {spec : ImportSpec} (none : importLine settings body reactDefault spec = none) :
    localNames settings body reactDefault spec = [] := by
  rw [importLine_eq] at none
  unfold localNames
  split
  · rfl
  · rename_i plain
    rw [if_neg plain] at none
    split at none
    · rename_i empty
      simp only [Bool.and_eq_true, List.isEmpty_iff, Bool.not_eq_true'] at empty
      simp [empty.1, empty.2]
    · cases none

/-- Whether markup needs the view library itself in scope. -/
def needsView (settings : Settings) (markup : Bool) : Bool :=
  markup && settings.reactMajor < 17

/-- Whether an import is of values of the view library. -/
def isViewImport (settings : Settings) (spec : ImportSpec) : Bool :=
  !spec.sideEffect && moduleOf settings spec == "react" && !spec.typeOnly

/-- The statements of an import block, each with the local names that it binds. -/
def importStatements (settings : Settings) (specs : List ImportSpec) (body : String) (markup : Bool) :
    List (String × List String) :=
  let reactDefault := needsView settings markup
  let statements := (specs.mergeSort (importLe settings)).filterMap fun spec =>
    (importLine settings body reactDefault spec).map (·, localNames settings body reactDefault spec)
  if reactDefault && !specs.any (isViewImport settings) then
    ("import React from 'react';", ["React"]) :: statements
  else statements

theorem importBlock_eq (settings : Settings) (specs : List ImportSpec) (body : String)
    (markup : Bool) :
    importBlock settings specs body markup =
      let statements := (specs.mergeSort (importLe settings)).filterMap
        (importLine settings body (needsView settings markup))
      if needsView settings markup &&
          !(specs.mergeSort (importLe settings)).any (isViewImport settings) then
        "import React from 'react';" :: statements
      else statements :=
  rfl

/-- The statements are those of the generated text. -/
theorem importStatements_text (settings : Settings) (specs : List ImportSpec) (body : String)
    (markup : Bool) :
    (importStatements settings specs body markup).map (·.1) =
      importBlock settings specs body markup := by
  have viewed : specs.any (isViewImport settings) =
      (specs.mergeSort (importLe settings)).any (isViewImport settings) :=
    ((List.mergeSort_perm specs _).any_eq).symm
  have lines (reactDefault : Bool) (l : List ImportSpec) :
      (l.filterMap fun spec => (importLine settings body reactDefault spec).map
        (·, localNames settings body reactDefault spec)).map (·.1) =
        l.filterMap (importLine settings body reactDefault) := by
    rw [List.map_filterMap]
    refine List.filterMap_congr fun spec _ => ?_
    cases importLine settings body reactDefault spec <;> rfl
  rw [importBlock_eq]
  unfold importStatements
  rw [viewed]
  dsimp only
  split
  · rw [List.map_cons, lines]
  · rw [lines]

/-- The local names that an import block binds. -/
def importedNames (settings : Settings) (specs : List ImportSpec) (body : String) (markup : Bool) :
    List String :=
  (importStatements settings specs body markup).flatMap (·.2)

/-- The local names that imports of libraries and shared modules bind. -/
def libraryNames (settings : Settings) (specs : List ImportSpec) (body : String) (markup : Bool) :
    List String :=
  (if needsView settings markup && !specs.any (isViewImport settings) then ["React"] else []) ++
    (specs.filter (·.isLibrary)).flatMap (localNames settings body (needsView settings markup))

/-- The local names that all other imports bind: of the source's own classes, and carried over. -/
def derivedNames (settings : Settings) (specs : List ImportSpec) (body : String) (markup : Bool) :
    List String :=
  (specs.filter (!·.isLibrary)).flatMap (localNames settings body (needsView settings markup))

theorem importedNames_perm (settings : Settings) (specs : List ImportSpec) (body : String)
    (markup : Bool) :
    (importedNames settings specs body markup).Perm
      (libraryNames settings specs body markup ++ derivedNames settings specs body markup) := by
  let names := localNames settings body (needsView settings markup)
  have bound (l : List ImportSpec) :
      (l.filterMap fun spec => (importLine settings body (needsView settings markup) spec).map
        (·, localNames settings body (needsView settings markup) spec)).flatMap (·.2) =
        l.flatMap names := by
    induction l with
    | nil => rfl
    | cons spec l ih =>
        cases line : importLine settings body (needsView settings markup) spec with
        | none => simp [line, ih, names, localNames_of_importLine line]
        | some text => simp [line, ih, names]
  have sorted : ((specs.mergeSort (importLe settings)).flatMap names).Perm
      ((specs.filter (·.isLibrary)).flatMap names ++ (specs.filter (!·.isLibrary)).flatMap names) := by
    rw [← List.flatMap_append]
    exact ((List.mergeSort_perm specs _).trans (List.filter_append_perm _ specs).symm).flatMap_right _
  unfold importedNames importStatements libraryNames derivedNames
  dsimp only
  split
  · simp only [List.flatMap_cons, bound, List.append_assoc]
    exact sorted.append_left _
  · simp only [bound, List.nil_append]
    exact sorted

section Libraries

variable {settings : Settings} {spec : ImportSpec}

/-- All values of the view library are of one place. -/
theorem isViewImport_place (paths : ∀ t, settings.importPath t ≠ "react") (fits : spec.Fits)
    (library : spec.isLibrary = true) (view : isViewImport settings spec = true) :
    spec.place = (some "react", none, false, false) := by
  simp only [isViewImport, Bool.and_eq_true, Bool.not_eq_true', beq_iff_eq] at view
  have module : spec.module = some "react" := by
    have from_ := view.1.2
    unfold moduleOf at from_
    split at from_
    · rename_i m h
      rw [h, from_]
    · exact absurd from_ (paths _)
    · exact absurd from_ (by decide)
  obtain ⟨_, _, nonempty, lists⟩ := fits.library library
  obtain ⟨n, rest, names⟩ := List.exists_cons_of_ne_nil nonempty
  have target := libraryImports_view _ (lists n (by simp [names])) module
  dsimp only at target
  simp only [ImportSpec.place, module, target, view.2, ImportSpec.isLibrary_prune library]

/-- An import of a library binds its own names, and the view library itself if markup needs it. -/
theorem localNames_library (fits : spec.Fits) (library : spec.isLibrary = true) (body : String)
    (reactDefault : Bool) :
    localNames settings body reactDefault spec =
      (if isViewImport settings spec && reactDefault then ["React"] else []) ++
        spec.names.mergeSort (· ≤ ·) := by
  obtain ⟨default, sideEffect, nonempty, lists⟩ := fits.library library
  have plain := ImportSpec.isLibrary_prune library
  have bound : (spec.names.mergeSort (· ≤ ·)).map boundName = spec.names.mergeSort (· ≤ ·) := by
    refine (List.map_congr_left fun n hn => ?_).trans (List.map_id _)
    exact (lists n (List.mem_mergeSort.mp hn)).plain.2
  have view : boundName "React" = "React" := by decide
  simp only [localNames, keptDefault, keptNames, sideEffect, plain, default, isViewImport]
  cases moduleOf settings spec == "react" <;> cases spec.typeOnly <;> cases reactDefault <;>
    simp [present, bound, view]

theorem mem_localNames_library (fits : spec.Fits) (library : spec.isLibrary = true) {body : String}
    {reactDefault : Bool} {n : String} (mem : n ∈ localNames settings body reactDefault spec) :
    n = "React" ∧ isViewImport settings spec = true ∨ n ≠ "React" ∧ n ∈ spec.names := by
  rw [localNames_library fits library] at mem
  rcases List.mem_append.mp mem with view | name
  · split at view
    · rename_i shown
      exact .inl ⟨List.mem_singleton.mp view, (Bool.and_eq_true_iff.mp shown).1⟩
    · cases view
  · have name := List.mem_mergeSort.mp name
    exact .inr ⟨((fits.library library).2.2.2 n name).plain.1, name⟩

theorem localNames_library_nodup (fits : spec.Fits) (library : spec.isLibrary = true) (body : String)
    (reactDefault : Bool) : (localNames settings body reactDefault spec).Nodup := by
  rw [localNames_library fits library]
  refine List.nodup_append.mpr ⟨?_, ?_, fun a ha b hb same => ?_⟩
  · split <;> simp
  · exact (List.mergeSort_perm _ _).nodup_iff.mpr fits.names
  · have other := ((fits.library library).2.2.2 b (List.mem_mergeSort.mp hb)).plain.1
    split at ha
    · exact other (same ▸ List.mem_singleton.mp ha)
    · cases ha

/-- A name that two imports of libraries bind is the view library itself or listed for both, and either
way they are of one place. -/
theorem place_of_mem_localNames (paths : ∀ t, settings.importPath t ≠ "react") {i : Imports}
    (tidy : i.Tidy) {a b : ImportSpec} (memA : a ∈ i) (memB : b ∈ i) (libraryA : a.isLibrary = true)
    (libraryB : b.isLibrary = true) {body : String} {reactDefault : Bool} {n : String}
    (na : n ∈ localNames settings body reactDefault a)
    (nb : n ∈ localNames settings body reactDefault b) : a.place = b.place := by
  have fitsA := tidy.fits a memA
  have fitsB := tidy.fits b memB
  rcases mem_localNames_library fitsA libraryA na with ⟨rfl, viewA⟩ | ⟨other, nameA⟩
  · rcases mem_localNames_library fitsB libraryB nb with ⟨_, viewB⟩ | ⟨other, _⟩
    · exact (isViewImport_place paths fitsA libraryA viewA).trans
        (isViewImport_place paths fitsB libraryB viewB).symm
    · exact absurd rfl other
  · rcases mem_localNames_library fitsB libraryB nb with ⟨view, _⟩ | ⟨_, nameB⟩
    · exact absurd view other
    · exact tidy.place_eq memA memB libraryA libraryB nameA nameB

/-- Names of libraries and shared modules never clash with one another. -/
theorem libraryNames_nodup (paths : ∀ t, settings.importPath t ≠ "react") {i : Imports}
    (tidy : i.Tidy) (body : String) (markup : Bool) :
    (libraryNames settings i body markup).Nodup := by
  refine List.nodup_append.mpr ⟨?_, List.nodup_flatMap.mpr ⟨fun spec mem => ?_, ?_⟩, ?_⟩
  · split <;> simp
  · obtain ⟨mem, library⟩ := List.mem_filter.mp mem
    exact localNames_library_nodup (tidy.fits spec mem) library _ _
  · have places : (i.filter (·.isLibrary)).Pairwise fun a b => a.place ≠ b.place :=
      (List.pairwise_map.mp tidy.places).filter _
    refine places.imp_of_mem fun {a b} ha hb different n na nb => different ?_
    obtain ⟨memA, libraryA⟩ := List.mem_filter.mp ha
    obtain ⟨memB, libraryB⟩ := List.mem_filter.mp hb
    exact place_of_mem_localNames paths tidy memA memB libraryA libraryB na nb
  · -- the view library is put in front only where no import is of it
    intro a ha b hb same
    split at ha
    · rename_i alone
      obtain ⟨spec, mem, bound⟩ := List.mem_flatMap.mp hb
      obtain ⟨mem, library⟩ := List.mem_filter.mp mem
      rcases mem_localNames_library (tidy.fits spec mem) library bound with ⟨_, view⟩ | ⟨other, _⟩
      · simp only [Bool.and_eq_true, Bool.not_eq_true', List.any_eq_false] at alone
        exact alone.2 spec mem view
      · exact other (same ▸ List.mem_singleton.mp ha)
    · cases ha

/-- A name and the names of an import block are all different exactly if the names that are not of
libraries are, and none of them is a name of a library. -/
theorem nodup_importedNames_iff (paths : ∀ t, settings.importPath t ≠ "react") {i : Imports}
    (tidy : i.Tidy) (own : String) (body : String) (markup : Bool) :
    (own :: importedNames settings i body markup).Nodup ↔
      (own :: derivedNames settings i body markup).Nodup ∧
        ∀ n ∈ own :: derivedNames settings i body markup, n ∉ libraryNames settings i body markup := by
  have perm := (importedNames_perm settings i body markup).cons own
  rw [perm.nodup_iff, ← List.perm_middle.nodup_iff, List.nodup_append]
  constructor
  · rintro ⟨_, clean, apart⟩
    exact ⟨clean, fun n hn ln => apart n ln n hn rfl⟩
  · rintro ⟨clean, apart⟩
    exact ⟨libraryNames_nodup paths tidy body markup, clean,
      fun n ln m hm same => apart m hm (same ▸ ln)⟩

end Libraries

end Printing

/-! ### Modules that import themselves -/

namespace UnitModel

variable {index : SymbolIndex} {m : UnitModel} {t : ArtifactRef}

theorem carried_cases (m : UnitModel) (index : SymbolIndex) (a : Artifact) :
    m.carried index a = [] ∨ ∃ sourcePath ds, m.carried index a = Imports.carry index sourcePath [] ds := by
  unfold carried
  split
  · split
    · exact .inr ⟨_, _, rfl⟩
    · exact .inl rfl
  · exact .inl rfl

theorem carried_tidy (m : UnitModel) (index : SymbolIndex) (a : Artifact) : (m.carried index a).Tidy := by
  rcases m.carried_cases index a with none | ⟨sourcePath, ds, same⟩
  · exact none ▸ .nil
  · exact same ▸ Imports.carry_tidy index sourcePath ds

theorem carried_carried (m : UnitModel) {index : SymbolIndex} {a : Artifact} :
    ∀ spec ∈ m.carried index a, spec.Carried := by
  rcases m.carried_cases index a with none | ⟨sourcePath, ds, same⟩
  · simp [none]
  · exact same ▸ Imports.carry_carried index sourcePath ds

/-- Whether a component's template names the component's own module, or a service is injected into
itself. -/
inductive UsesItself (index : SymbolIndex) : UnitModel → Prop
  | component {m : ComponentModel}
      (named : NamesModule index m.classes (.component m.name m.sourcePath)) :
      UsesItself index (.component m)
  | service {m : ServiceModel} {dep : Injected} (mem : dep ∈ m.dependencies)
      (kind : dep.kind = .service) (same : dep.ref = .service m.name m.sourcePath) :
      UsesItself index (.service m)

theorem directive_category (className sourcePath : String) (kind : DirectiveKind) (markup : Bool) :
    (ArtifactRef.directive className sourcePath kind markup).category = .components ∨
      (ArtifactRef.directive className sourcePath kind markup).category = .hooks := by
  unfold ArtifactRef.directive
  split
  · exact .inl rfl
  · split
    · exact .inl rfl
    · exact .inr rfl

/-- A model's own code is among what it uses only if it uses itself. -/
theorem Uses.itself (uses : m.Uses index t) (owns : m.Owns t) : m.UsesItself index := by
  cases uses with
  | named h =>
      cases owns
      exact .component h
  | piped found declared => cases congrArg ArtifactRef.category owns
  | styled m => cases congrArg ArtifactRef.category owns
  | applied m => cases congrArg ArtifactRef.category owns
  | provided mem => rcases owns with owns | owns <;> cases owns
  | routed found routing =>
      rcases routing with ⟨n, rfl⟩ | ⟨n, rfl⟩
      · rcases owns with owns | owns <;> cases owns
      · cases owns
  | @injected _ dep mem kind =>
      cases m with
      | component m => cases congrArg ArtifactRef.category owns
      | service m => exact .service mem kind owns
      | pipe m => cases congrArg ArtifactRef.category owns
      | directive m =>
          have category := congrArg ArtifactRef.category owns
          rcases directive_category m.name m.sourcePath m.directiveKind m.rendersMarkup with h | h <;>
            rw [directiveRef, h] at category <;> cases category
      | module m => cases mem
      | routeTable m => cases mem
      | stub s => cases mem
      | types n => cases mem

theorem find?_of_sourcePath (h : t.sourcePath ≠ "") : Support.find? t = none := by
  have shared : ∀ a ∈ Support.modules, a.ref.sourcePath = "" := by decide
  refine List.find?_eq_none.mpr fun a mem same => h ?_
  rw [← eq_of_beq same]
  exact shared a mem

theorem find?_of_category (h : t.category ≠ .utils ∧ t.category ≠ .hooks) : Support.find? t = none := by
  have shared : ∀ a ∈ Support.modules, a.ref.category = .utils ∨ a.ref.category = .hooks := by decide
  refine List.find?_eq_none.mpr fun a mem same => ?_
  rcases shared a mem with category | category <;> rw [eq_of_beq same] at category
  · exact h.1 category
  · exact h.2 category

/-- The classes that become hooks have a place, so that their modules differ from shared ones. -/
structure Placed (m : UnitModel) : Prop where
  pipe : ∀ p, m = .pipe p → p.sourcePath ≠ ""
  directive : ∀ d, m = .directive d → d.sourcePath ≠ ""

/-- A model's own code is neither a shared module nor a copy of types. -/
theorem Owns.own (owns : m.Owns t) (placed : m.Placed) :
    Support.find? t = none ∧ t.category ≠ .types := by
  cases m with
  | component m =>
      cases owns
      exact ⟨find?_of_category (by simp [ArtifactRef.component]), by simp [ArtifactRef.component]⟩
  | service m =>
      cases owns
      exact ⟨find?_of_category (by simp [ArtifactRef.service]), by simp [ArtifactRef.service]⟩
  | pipe m =>
      cases owns
      exact ⟨find?_of_sourcePath (placed.pipe m rfl), by simp [ArtifactRef.pipeHook]⟩
  | directive m =>
      cases owns
      refine ⟨find?_of_sourcePath ?_, ?_⟩
      · unfold directiveRef ArtifactRef.directive
        split
        · exact placed.directive m rfl
        · split <;> exact placed.directive m rfl
      · rcases directive_category m.name m.sourcePath m.directiveKind m.rendersMarkup with h | h <;>
          rw [directiveRef, h] <;> decide
  | module m => rcases owns with h | h <;> exact ⟨find?_of_category (by simp [h]), by simp [h]⟩
  | routeTable m =>
      have h : t.category = .pages := owns
      exact ⟨find?_of_category (by simp [h]), by simp [h]⟩
  | stub s => exact owns.elim
  | types n => exact owns.elim

/-- No module of a unit that a model uses is a shared one. -/
theorem Uses.own (uses : m.Uses index t)
    (looked : ∀ name s, index.lookup name = some s → s.unit ≠ "")
    (piped : ∀ name s, index.pipe name = some s → s.unit ≠ "") (placed : m.Placed) :
    Support.find? t = none := by
  cases uses with
  | named h =>
      obtain ⟨name, _, s, found, rfl | ⟨d, _, rfl⟩⟩ := h
      · exact find?_of_sourcePath (looked name s found)
      · refine find?_of_sourcePath ?_
        unfold ArtifactRef.directive
        split
        · exact looked name s found
        · split <;> exact looked name s found
  | piped found declared => exact find?_of_sourcePath (piped _ _ found)
  | styled m => exact find?_of_category (by simp [ArtifactRef.style])
  | injected mem kind => exact find?_of_category (by simp [Injected.ref, ArtifactRef.service])
  | provided mem => exact find?_of_category (by simp [Injected.ref, ArtifactRef.service])
  | applied m => exact find?_of_sourcePath (placed.pipe m rfl)
  | routed found routing => exact find?_of_sourcePath (looked _ _ found)

end UnitModel

/-! ### Emitted modules -/

section Emitted

variable {works : List Work} {order : NameOrder} {a : Artifact}

/-- The run emits the module in the place of an item, and the item was built into the model. -/
def EmitsFor (works : List Work) (a : Artifact) (m : UnitModel) (order : NameOrder := .written) :
    Prop :=
  ∃ w ∈ works, ∃ item ∈ w.items, ∃ as sink noted,
    item.modules (Work.index works) w order = .ok (as, sink) ∧ a ∈ as ∧
      (item.model (Work.index works)).run.run { unit := w.path } = (.ok m, noted)

theorem shared_imports : ∀ b ∈ Support.modules, b.imports = [] := by
  decide

/-- A module with imports is one of its item's own, made of the item's model. -/
theorem emits_makes (emitted : Emits works a order) (code : a.IsCode) (some : a.imports ≠ []) :
    ∃ m, EmitsFor works a m order ∧ Makes (Work.index works) m a := by
  obtain ⟨w, hw, item, hi, as, sink, made, mem⟩ := emitted
  rcases WorkItem.modules_cases made with run | ⟨f, noted, b, _, _, rfl, stubbed⟩
  · obtain ⟨m, noted, built, converted⟩ := Noting.ok_of_bind run
    obtain ⟨own, t, ran, ended⟩ := Noting.ok_of_bind converted
    cases ended
    rcases List.mem_append.mp mem with here | shared
    · exact ⟨m, ⟨w, hw, item, hi, _, sink, noted, made, mem, built⟩,
        convertOwn_makes m noted own _ ran a here code some⟩
    · obtain ⟨t, _, found⟩ := List.mem_filterMap.mp shared
      exact absurd (shared_imports a (List.mem_of_find?_eq_some found)) some
  · rw [List.mem_singleton.mp mem] at some
    exact absurd (stub_imports stubbed) some

/-- All units of a run have a name. -/
theorem path_ne_empty {sources : Sources} {w : Work} (h : w ∈ Work.ofSources sources) :
    w.path ≠ "" := by
  obtain ⟨path, text, _, unit, rfl⟩ := Work.mem_ofSources.mp h
  rw [(Work.prepare_at _ path text).path]
  rintro rfl
  exact absurd unit (by decide)

/-- What the index of a run knows is declared in a unit with a name. -/
theorem unit_ne_empty {sources : Sources} {name : String} {s : Symbol}
    (found : (Work.index (Work.ofSources sources)).lookup name = some s) : s.unit ≠ "" := by
  obtain ⟨_, _, d, declared, rfl⟩ := (Work.index_sound _).ofLookup found
  obtain ⟨w, hw, hi⟩ := Work.mem_declarations declared
  have here : d.base.sourcePath = w.path := (Work.ofSources_at hw).items _ hi
  have same : (Symbol.ofDeclaration d).unit = d.base.sourcePath := rfl
  rw [same, here]
  exact path_ne_empty hw

theorem EmitsFor.placed {sources : Sources} {m : UnitModel}
    (emits : EmitsFor (Work.ofSources sources) a m order) : m.Placed := by
  obtain ⟨w, hw, item, hi, _, _, noted, _, _, built⟩ := emits
  cases item with
  | declaration d =>
      have of := (Model.build_ensures (Work.index_sound _) d { unit := w.path }).2 m
        (congrArg Prod.fst built)
      have here : d.base.sourcePath = w.path := (Work.ofSources_at hw).items _ hi
      have named : d.base.sourcePath ≠ "" := here ▸ path_ne_empty hw
      constructor
      · rintro p rfl
        cases of with
        | pipe of => exact of.sourcePath ▸ named
      · rintro p rfl
        cases of with
        | directive of => exact of.base.sourcePath ▸ named
  | stub s =>
      cases built
      exact ⟨nofun, nofun⟩
  | types n =>
      cases built
      exact ⟨nofun, nofun⟩

/-- The imports of an emitted module are tidy. -/
theorem emitted_tidy {sources : Sources} (emitted : Emits (Work.ofSources sources) a order)
    (code : a.IsCode) : Imports.Tidy a.imports := by
  by_cases none : a.imports = []
  · rw [none]
    exact .nil
  · obtain ⟨m, emits, made⟩ := emits_makes emitted code none
    have piped (name : String) (s : Symbol)
        (found : (Work.index (Work.ofSources sources)).pipe name = some s) : s.unit ≠ "" :=
      unit_ne_empty ((Work.index_sound _).registered_of_pipe found)
    exact (m.carried_tidy _ a).ofGathered made.gathered fun t uses =>
      uses.own (fun _ _ => unit_ne_empty) piped emits.placed

theorem libraryImports_isLibrary : ∀ a ∈ libraryImports, a.isLibrary = true := by
  decide

theorem libraryImports_shared : ∀ a ∈ libraryImports, ∀ t ∈ a.target, (Support.find? t).isSome := by
  decide

/-- A module that imports itself was made of a model that uses itself. -/
theorem emitted_itself {sources : Sources} (emitted : Emits (Work.ofSources sources) a order)
    (code : a.IsCode) {spec : ImportSpec} (mem : spec ∈ a.imports) (target : spec.target = some a.ref) :
    ∃ m, EmitsFor (Work.ofSources sources) a m order ∧
      m.UsesItself (Work.index (Work.ofSources sources)) := by
  obtain ⟨m, emits, made⟩ := emits_makes emitted code (List.ne_nil_of_mem mem)
  obtain ⟨own, category⟩ := made.owned.own emits.placed
  obtain ⟨new, origin, place⟩ := Imports.exists_brings made.gathered mem
  have same : new.target = some a.ref := (congrArg (·.2.1) place).trans target
  refine ⟨m, emits, ?_⟩
  rcases origin with carried | listed | ⟨of, -, -, uses⟩
  · obtain ⟨_, here⟩ | ⟨path, here⟩ := m.carried_carried new carried
    · cases same.symm.trans (congrArg (·.2.1) here)
    · have copy : a.ref = .types path := Option.some.inj (same.symm.trans (congrArg (·.2.1) here))
      exact absurd (congrArg ArtifactRef.category copy) category
  · have shared := libraryImports_shared new listed a.ref same
    simp [own] at shared
  · cases of.symm.trans same
    exact uses.itself made.owned

/-- An import that is not of a library is carried over, or of a module that the model uses. -/
theorem emitted_derived {sources : Sources} (emitted : Emits (Work.ofSources sources) a order)
    (code : a.IsCode) {spec : ImportSpec} (mem : spec ∈ a.imports) (derived : spec.isLibrary = false) :
    spec.prune = true ∨ ∃ t m, spec.target = some t ∧ EmitsFor (Work.ofSources sources) a m order ∧
      m.Uses (Work.index (Work.ofSources sources)) t := by
  obtain ⟨m, emits, made⟩ := emits_makes emitted code (List.ne_nil_of_mem mem)
  obtain ⟨new, origin, place⟩ := Imports.exists_brings made.gathered mem
  rcases origin with carried | listed | ⟨of, -, -, uses⟩
  · exact .inl ((congrArg (·.2.2.2) place).symm.trans (m.carried_carried new carried).prune)
  · have library : new.isLibrary = true := libraryImports_isLibrary new listed
    rw [ImportSpec.isLibrary_congr place, derived] at library
    cases library
  · exact .inr ⟨_, m, (congrArg (·.2.1) place).symm.trans of, emits, uses⟩

end Emitted

/-- Modules name one another by relative paths. -/
theorem Layout.importPath_relative (l : Layout) (origin : String) (t : ArtifactRef) :
    (l.importPath origin t).startsWith "." = true := by
  unfold Layout.importPath
  dsimp only
  split
  · rename_i upward
    obtain ⟨rest, split⟩ := String.startsWith_string_iff.mp upward
    exact String.startsWith_string_iff.mpr ⟨'.' :: '/' :: rest, split⟩
  · rw [String.startsWith_string_iff, String.toList_append]
    exact List.IsPrefix.trans ⟨['/'], rfl⟩ (List.prefix_append _ _)

theorem Layout.importPath_ne (l : Layout) (origin : String) (t : ArtifactRef) :
    l.importPath origin t ≠ "react" := fun same => by
  have relative := l.importPath_relative origin t
  rw [same] at relative
  exact absurd relative (by simp [String.startsWith_string_iff])

/-- How a module is printed where it stands. -/
def Layout.printing (l : Layout) (major : Int) (a : Artifact) : Printing.Settings :=
  { reactMajor := major, importPath := l.importPath (l.pathFor a) }

theorem Layout.printing_importPath (l : Layout) (major : Int) (a : Artifact) (t : ArtifactRef) :
    (l.printing major a).importPath t ≠ "react" := by
  simp only [printing]
  exact l.importPath_ne (l.pathFor a) t

/-- Names of the source's own classes and names that are carried over are all that can clash among the
imports of a component, hook, wrapper, context or table of routes: with one another, with the
module's own name, or with names of libraries.  A module that imports itself is a component whose
template names it, or a service that is injected into itself. -/
theorem imported_names_nodup_iff (sources : Sources) {order : NameOrder} {a : Artifact}
    (emitted : Emits (Work.ofSources sources) a order) (code : a.IsCode) (layout : Layout) (major : Int)
    (body : String) (markup : Bool) :
    let settings := layout.printing major a
    let derived := Printing.derivedNames settings a.imports body markup
    (Printing.importStatements settings a.imports body markup).map (·.1) =
      Printing.importBlock settings a.imports body markup ∧
    ((a.name :: Printing.importedNames settings a.imports body markup).Nodup ↔
      (a.name :: derived).Nodup ∧
        ∀ n ∈ a.name :: derived, n ∉ Printing.libraryNames settings a.imports body markup) ∧
    (∀ spec ∈ a.imports, spec.isLibrary = false → spec.prune = true ∨
      ∃ t m, spec.target = some t ∧ EmitsFor (Work.ofSources sources) a m order ∧
        m.Uses (Work.index (Work.ofSources sources)) t) ∧
    ((∃ spec ∈ a.imports, spec.target = some a.ref) →
      ∃ m, EmitsFor (Work.ofSources sources) a m order ∧
        m.UsesItself (Work.index (Work.ofSources sources))) := by
  have tidy := emitted_tidy emitted code
  refine ⟨Printing.importStatements_text _ a.imports body markup,
    Printing.nodup_importedNames_iff (layout.printing_importPath major a) tidy a.name body markup,
    fun spec mem derived => emitted_derived emitted code mem derived, ?_⟩
  rintro ⟨spec, mem, target⟩
  exact emitted_itself emitted code mem target

theorem Artifact.eq_of_hook? {a : Artifact} {h : HookArtifact} (is : a.hook? = some h) : a = .hook h := by
  cases a <;> cases is
  rfl

theorem imported_names_nodup_pipeUnit : ∃ a, Emits (Work.ofSources [pipeUnit]) a ∧
    a.imports.length = 2 ∧ (a.name :: Printing.importedNames (Layout.printing {} 18 a) a.imports ""
      false).Nodup := by
  have works := ofSources_pipeUnit
  obtain ⟨w, same⟩ : ∃ w, w = Work.prepare [] pipeUnit.1 pipeUnit.2 := ⟨_, rfl⟩
  have computed : (((w.artifacts (Work.index [w])).filterMap Artifact.hook?).any fun h =>
      let derived := h.name :: Printing.derivedNames (Layout.printing {} 18 (.hook h)) h.imports "" false
      decide (h.imports.length = 2 ∧ derived.Nodup ∧ ∀ n ∈ derived,
        n ∉ Printing.libraryNames (Layout.printing {} 18 (.hook h)) h.imports "" false)) = true := by
    rw [same.trans (Work.prepare_chars [] "a.ts" String.toList_ofList)]
    decide +kernel
  rw [← same] at works
  obtain ⟨h, hooks, facts⟩ := List.any_eq_true.mp computed
  obtain ⟨a, ha, is⟩ := List.mem_filterMap.mp hooks
  obtain rfl := Artifact.eq_of_hook? is
  have emitted : Emits (Work.ofSources [pipeUnit]) (.hook h) := by
    rw [works]
    exact ⟨w, List.mem_singleton.mpr rfl, Work.modules_of_mem_artifacts ha⟩
  obtain ⟨two, clean⟩ := of_decide_eq_true facts
  exact ⟨.hook h, emitted, two,
    (imported_names_nodup_iff [pipeUnit] emitted trivial {} 18 "" false).2.1.mpr clean⟩

/-- A unit with a component that shows itself. -/
def recursiveUnit : Work where
  path := "a.ts"
  items := [.declaration (.component
    { name := "A", sourcePath := "a.ts", selector := some "app-a"
      templateNodes := (Template.parse "<app-a></app-a>").toOption.getD [] })]

theorem imported_names_clash_recursiveUnit : ∃ c : ComponentArtifact,
    Emits [recursiveUnit] (.component c) ∧ (∃ spec ∈ c.imports, spec.target = some c.ref) ∧
      ¬ (c.name :: Printing.importedNames (Layout.printing {} 18 (.component c)) c.imports
        (Printing.componentBody c) true).Nodup := by
  have computed : (recursiveUnit.component?.any fun (_, c) =>
      decide ((∃ spec ∈ c.imports, spec.target = some c.ref) ∧
        ¬ (c.name :: Printing.importedNames (Layout.printing {} 18 (.component c)) c.imports
          (Printing.componentBody c) true).Nodup)) = true := by
    decide +kernel
  obtain ⟨⟨decl, c⟩, found, facts⟩ := (Option.any_eq_true _ _).mp computed
  obtain ⟨items, as, sink, made, mem⟩ := Work.becomes_of_component? found
  refine ⟨c, ⟨recursiveUnit, List.mem_singleton.mpr rfl, _, ?_, as, sink, made, mem⟩,
    of_decide_eq_true facts⟩
  rw [items]
  exact List.mem_singleton.mpr rfl

end ReactMigration
