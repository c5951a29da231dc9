import ReactMigration.Proofs.ImportNames

/-!
What imports bind, in a source file and in a generated module.

A binding is a local name for an export of a module.  The import clauses of a source file are read
statement by statement; the statements of an import block are read from the imports that they are
printed from.
-/

namespace ReactMigration

open ReactMigration.Text
open ReactMigration.TypeScript (Source Node)

/-! ### Bindings -/

/-- What a module exports. -/
inductive Export where
  | default
  /-- The module as a whole. -/
  | whole
  | named (name : String)
  deriving DecidableEq

/-- Whether it is an export with a name. -/
def Export.isNamed : Export → Bool
  | .named _ => true
  | _ => false

/-- A local name for an export of a module. -/
structure Binding where
  name : String
  module : String
  exported : Export
  deriving DecidableEq

/-! ### Source files -/

namespace Declaration

/-- The bindings of a part of an import clause. -/
def partBindings (s : Source) (module : String) (part : Node) : List Binding :=
  match part.kind with
  | .identifier => [⟨s.text part, module, .default⟩]
  | .namespaceImport => [⟨s.textOf (part.childOf? [.identifier]), module, .whole⟩]
  | .namedImports => (part.childrenOf .importSpecifier).map fun spec =>
      ⟨s.textOf ((spec.inRole? .newName).orElse fun _ => spec.inRole? .name), module,
        .named (s.textOf (spec.inRole? .name))⟩
  | _ => []

/-- The module of an import statement and the parts of its clause. -/
def importParts? (s : Source) (n : Node) : Option (String × List Node) :=
  if n.kind == .importStatement then
    (n.inRole? .source).map fun source =>
      (Metadata.inner (s.text source), ((n.childOf? [.importClause]).map (·.namedChildren)).getD [])
  else none

/-- The bindings of the import statements of a file, statement by statement. -/
def fileBindings (text : String) : List (List Binding) :=
  let s := Source.ofString text
  ((TypeScript.parse text false).children.filterMap (importParts? s)).map fun statement =>
    statement.2.flatMap (partBindings s statement.1)

theorem fileBindings_chars {text : String} {cs : List Char} (chars : text.toList = cs) :
    fileBindings text =
      ((TypeScript.parseChars cs false).children.filterMap (importParts? ⟨cs⟩)).map fun statement =>
        statement.2.flatMap (partBindings ⟨cs⟩ statement.1) := by
  subst chars
  rfl

end Declaration

/-- The last binding to the module itself of the given kind. -/
def lastTo (exported : Export) (bs : List Binding) : Option Binding :=
  (bs.filter (·.exported = exported)).getLast?

/-- A statement of a source file, read as an import. -/
structure Reads (bs : List Binding) (d : ImportDecl) : Prop where
  module : ∀ b ∈ bs, b.module = d.module
  names : d.names = (bs.filter (·.exported.isNamed)).map (·.name)
  default : d.default = (lastTo .default bs).map (·.name)
  whole : d.whole = (lastTo .whole bs).map (·.name)

section Reads

variable {bs new : List Binding} {d : ImportDecl} {b : Binding}

theorem Reads.nil (module : String) : Reads [] { module } :=
  ⟨by simp, rfl, rfl, rfl⟩

theorem Reads.modules (h : Reads bs d) (here : ∀ b ∈ new, b.module = d.module) :
    ∀ b ∈ bs ++ new, b.module = d.module :=
  List.forall_mem_append.mpr ⟨h.module, here⟩

theorem lastTo_append_named {exported : Export} (other : exported.isNamed = false)
    (named : ∀ b ∈ new, b.exported.isNamed = true) : lastTo exported (bs ++ new) = lastTo exported bs := by
  have none : new.filter (·.exported = exported) = [] := by
    refine List.filter_eq_nil_iff.mpr fun b mem same => ?_
    have := named b mem
    rw [of_decide_eq_true same, other] at this
    cases this
  rw [lastTo, List.filter_append, none, List.append_nil, lastTo]

theorem Reads.append_named (h : Reads bs d) (new : List Binding) (here : ∀ b ∈ new, b.module = d.module)
    (named : ∀ b ∈ new, b.exported.isNamed = true) :
    Reads (bs ++ new) { d with names := d.names ++ new.map (·.name) } where
  module := h.modules here
  names := by rw [List.filter_append, List.map_append, List.filter_eq_self.mpr named, ← h.names]
  default := by rw [lastTo_append_named rfl named, ← h.default]
  whole := by rw [lastTo_append_named rfl named, ← h.whole]

theorem Reads.append_default (h : Reads bs d) (here : b.module = d.module) (default : b.exported = .default) :
    Reads (bs ++ [b]) { d with default := some b.name } where
  module := h.modules (by simpa using here)
  names := by
    have other : b.exported.isNamed = false := by rw [default]; rfl
    simp [other, h.names]
  default := by simp [lastTo, default]
  whole := by simp [lastTo, default, h.whole]

theorem Reads.append_whole (h : Reads bs d) (here : b.module = d.module) (whole : b.exported = .whole) :
    Reads (bs ++ [b]) { d with whole := some b.name } where
  module := h.modules (by simpa using here)
  names := by
    have other : b.exported.isNamed = false := by rw [whole]; rfl
    simp [other, h.names]
  default := by simp [lastTo, whole, h.default]
  whole := by simp [lastTo, whole]

namespace Declaration

variable {s : Source}

theorem addImportPart_module (d : ImportDecl) (part : Node) : (addImportPart s d part).module = d.module := by
  unfold addImportPart
  split <;> rfl

theorem addImportPart_reads (h : Reads bs d) (part : Node) :
    Reads (bs ++ partBindings s d.module part) (addImportPart s d part) := by
  unfold addImportPart
  split
  · rename_i kind
    simp only [partBindings, kind]
    exact h.append_default (b := ⟨s.text part, d.module, .default⟩) rfl rfl
  · rename_i kind
    simp only [partBindings, kind]
    exact h.append_whole (b := ⟨s.textOf (part.childOf? [.identifier]), d.module, .whole⟩) rfl rfl
  · rename_i kind
    simp only [partBindings, kind]
    have added := h.append_named ((part.childrenOf .importSpecifier).map fun spec =>
      ⟨s.textOf ((spec.inRole? .newName).orElse fun _ => spec.inRole? .name), d.module,
        .named (s.textOf (spec.inRole? .name))⟩) (by simp) (by simp [Export.isNamed])
    rw [List.map_map] at added
    exact added
  · have none : partBindings s d.module part = [] := by
      unfold partBindings
      split <;> simp_all
    rwa [none, List.append_nil]

theorem importParts_reads (h : Reads bs d) (parts : List Node) :
    Reads (bs ++ parts.flatMap (partBindings s d.module)) (parts.foldl (addImportPart s) d) := by
  induction parts generalizing bs d with
  | nil => simpa using h
  | cons part parts ih =>
      have further := ih (addImportPart_reads (s := s) h part)
      rw [addImportPart_module, List.append_assoc] at further
      exact further

/-- The imports of a file are its import statements. -/
theorem sourceImports_reads (text : String) : List.Forall₂ Reads (fileBindings text) (sourceImports text) := by
  have each (s : Source) (ns : List Node) : List.Forall₂ Reads
      ((ns.filterMap (importParts? s)).map fun statement => statement.2.flatMap (partBindings s statement.1))
      (ns.filterMap fun n => (importParts? s n).map fun statement =>
        statement.2.foldl (addImportPart s) { module := statement.1 }) := by
    induction ns with
    | nil => exact .nil
    | cons n ns ih =>
        cases parts : importParts? s n with
        | none =>
            rw [List.filterMap_cons_none parts, List.filterMap_cons_none (by rw [parts]; rfl)]
            exact ih
        | some statement =>
            rw [List.filterMap_cons_some parts, List.filterMap_cons_some (by rw [parts]; rfl), List.map_cons]
            have first := importParts_reads (s := s) (Reads.nil statement.1) statement.2
            rw [List.nil_append] at first
            exact .cons first ih
  have same (s : Source) (root : Node) : importsOf s root = root.children.filterMap fun n =>
      (importParts? s n).map fun statement => statement.2.foldl (addImportPart s) { module := statement.1 } := by
    refine List.filterMap_congr fun n _ => ?_
    unfold importParts?
    split
    · rw [Option.map_map]
      rfl
    · rfl
  rw [sourceImports, same]
  exact each _ _

end Declaration

end Reads

/-! ### Generated modules -/

namespace Printing

/-- What the default import of a statement binds. -/
def defaultBinding (module name : String) : Binding :=
  ⟨boundName name, module, if startsWith name.toList "* as ".toList then .whole else .default⟩

/-- What a name in the braces of a statement binds. -/
def nameBinding (module name : String) : Binding :=
  ⟨boundName name, module, .named (((Pattern.text " as ").split name).headD "")⟩

/-- The bindings of the statement of an import. -/
def specBindings (settings : Settings) (body : String) (reactDefault : Bool) (spec : ImportSpec) :
    List Binding :=
  if spec.sideEffect then []
  else
    let default := keptDefault settings body reactDefault spec
    (if present default then [defaultBinding (moduleOf settings spec) (default.getD "")] else []) ++
      (keptNames body spec).map (nameBinding (moduleOf settings spec))

/-- The view library itself. -/
def viewBinding : Binding :=
  ⟨"React", "react", .default⟩

/-- The statements of an import block, each with its bindings. -/
def boundStatements (settings : Settings) (specs : List ImportSpec) (body : String) (markup : Bool) :
    List (String × List Binding) :=
  let reactDefault := needsView settings markup
  let statements := (specs.mergeSort (importLe settings)).filterMap fun spec =>
    (importLine settings body reactDefault spec).map (·, specBindings settings body reactDefault spec)
  if reactDefault && !specs.any (isViewImport settings) then
    ("import React from 'react';", [viewBinding]) :: statements
  else statements

/-- The bindings of an import block. -/
def blockBindings (settings : Settings) (specs : List ImportSpec) (body : String) (markup : Bool) :
    List Binding :=
  (boundStatements settings specs body markup).flatMap (·.2)

section Blocks

variable {settings : Settings} {specs : List ImportSpec} {spec : ImportSpec} {body : String} {markup : Bool}
  {b : Binding}

theorem specBindings_names (reactDefault : Bool) :
    (specBindings settings body reactDefault spec).map (·.name) = localNames settings body reactDefault spec := by
  unfold specBindings localNames
  split
  · rfl
  · dsimp only
    rw [List.map_append, List.map_append, List.map_map]
    split <;> rfl

/-- The statements and their local names are those of the import block. -/
theorem boundStatements_names (settings : Settings) (specs : List ImportSpec) (body : String) (markup : Bool) :
    (boundStatements settings specs body markup).map (fun statement => (statement.1, statement.2.map (·.name))) =
      importStatements settings specs body markup := by
  have lines (l : List ImportSpec) :
      (l.filterMap fun spec => (importLine settings body (needsView settings markup) spec).map
        (·, specBindings settings body (needsView settings markup) spec)).map
          (fun statement => (statement.1, statement.2.map (·.name))) =
        l.filterMap fun spec => (importLine settings body (needsView settings markup) spec).map
          (·, localNames settings body (needsView settings markup) spec) := by
    rw [List.map_filterMap]
    refine List.filterMap_congr fun spec _ => ?_
    rw [Option.map_map, ← specBindings_names]
    rfl
  unfold boundStatements importStatements
  dsimp only
  split
  · rw [List.map_cons, lines]
    rfl
  · rw [lines]

/-- The statements are those of the generated text. -/
theorem boundStatements_text (settings : Settings) (specs : List ImportSpec) (body : String) (markup : Bool) :
    (boundStatements settings specs body markup).map (·.1) = importBlock settings specs body markup := by
  rw [← importStatements_text, ← boundStatements_names, List.map_map]
  rfl

theorem specBindings_of_importLine {reactDefault : Bool} (none : importLine settings body reactDefault spec = none) :
    specBindings settings body reactDefault spec = [] := by
  refine List.map_eq_nil_iff.mp (specBindings_names reactDefault |>.trans ?_)
  exact localNames_of_importLine none

/-- Values of the view library come with the library itself if markup needs it. -/
theorem viewBinding_mem (view : isViewImport settings spec = true) :
    viewBinding ∈ specBindings settings body true spec := by
  have bound : defaultBinding "react" "React" = viewBinding := by decide +kernel
  simp only [isViewImport, Bool.and_eq_true, Bool.not_eq_true', beq_iff_eq] at view
  obtain ⟨⟨loud, module⟩, values⟩ := view
  simp [specBindings, keptDefault, loud, module, values, present, bound]

/-- What is bound is bound by the statement of an import, or it is the view library that markup needs. -/
theorem mem_blockBindings : b ∈ blockBindings settings specs body markup ↔
    (needsView settings markup = true ∧ b = viewBinding) ∨
      ∃ spec ∈ specs, b ∈ specBindings settings body (needsView settings markup) spec := by
  have bound : b ∈ ((specs.mergeSort (importLe settings)).filterMap fun spec =>
      (importLine settings body (needsView settings markup) spec).map
        (·, specBindings settings body (needsView settings markup) spec)).flatMap (·.2) ↔
      ∃ spec ∈ specs, b ∈ specBindings settings body (needsView settings markup) spec := by
    simp only [List.mem_flatMap, List.mem_filterMap, List.mem_mergeSort, Option.map_eq_some_iff]
    constructor
    · rintro ⟨_, ⟨spec, mem, line, _, rfl⟩, here⟩
      exact ⟨spec, mem, here⟩
    · rintro ⟨spec, mem, here⟩
      cases line : importLine settings body (needsView settings markup) spec with
      | none => simp [specBindings_of_importLine line] at here
      | some text => exact ⟨_, ⟨spec, mem, text, line, rfl⟩, here⟩
  unfold blockBindings boundStatements
  dsimp only
  split
  · rename_i alone
    simp only [Bool.and_eq_true] at alone
    rw [List.flatMap_cons, List.mem_append, bound, List.mem_singleton, and_iff_right alone.1]
  · rename_i shown
    rw [bound]
    refine ⟨.inr, ?_⟩
    rintro (⟨needed, rfl⟩ | here)
    · simp only [needed, Bool.true_and, Bool.not_eq_true', Bool.not_eq_false, List.any_eq_true] at shown
      obtain ⟨spec, mem, view⟩ := shown
      exact ⟨spec, mem, needed ▸ viewBinding_mem view⟩
    · exact here

/-- A binding is one that the module has without what it carries over, or it is carried over. -/
theorem mem_blockBindings_filter : b ∈ blockBindings settings specs body markup ↔
    b ∈ blockBindings settings (specs.filter (!·.prune)) body markup ∨
      ∃ spec ∈ specs, spec.prune = true ∧ b ∈ specBindings settings body (needsView settings markup) spec := by
  simp only [mem_blockBindings, List.mem_filter, Bool.not_eq_true']
  constructor
  · rintro (view | ⟨spec, mem, here⟩)
    · exact .inl (.inl view)
    · cases kind : spec.prune with
      | false => exact .inl (.inr ⟨spec, ⟨mem, kind⟩, here⟩)
      | true => exact .inr ⟨spec, mem, kind, here⟩
  · rintro ((view | ⟨spec, ⟨mem, -⟩, here⟩) | ⟨spec, mem, -, here⟩)
    · exact .inl view
    · exact .inr ⟨spec, mem, here⟩
    · exact .inr ⟨spec, mem, here⟩

end Blocks

end Printing

end ReactMigration
