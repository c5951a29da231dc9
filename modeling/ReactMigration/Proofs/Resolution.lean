import Mathlib.Data.List.Dedup
import ReactMigration.Proofs.Gathering
import ReactMigration.Proofs.Substitution
import ReactMigration.Proofs.TemplateWrites

/-!
What linking makes of a template.

The linked tree has the shape of the template: a two-way binding is split where it stands, an attribute
that selects a directive becomes it, and everything else is kept.  The references that are gathered are
those of the template, and every reference whose name has been declared before is remarked on.
-/

namespace ReactMigration

namespace Table

variable {α : Type}

theorem keys_set (t : Table α) (key : String) (value : α) :
    (t.set key value).keys = if t.has key then t.keys else t.keys ++ [key] := by
  induction t with
  | nil => rfl
  | cons entry t ih =>
      obtain ⟨k, v⟩ := entry
      by_cases here : k = key
      · simp [set, has, keys, here]
      · have other : (k == key) = false := by simpa using here
        simp only [set, has, List.any_cons, other, Bool.false_or, Bool.false_eq_true, if_false]
        rw [keys, List.map_cons]
        change k :: keys (set t key value) = if has t key then k :: keys t else k :: (keys t ++ [key])
        rw [ih]
        split <;> rfl

end Table

namespace Model

open ReactMigration.Template

variable {α β : Type} {index : SymbolIndex}

/-! ### Linked trees -/

/-- An attribute of this name selects the directive. -/
def Selects (index : SymbolIndex) (name directive : String) : Prop :=
  ∃ s, index.attr name = some s ∧ s.kind = .directive ∧ s.name = directive

/-- An element with this tag stands for the component. -/
def StandsFor (index : SymbolIndex) (tag component : String) : Prop :=
  ∃ s, index.element tag = some s ∧ s.kind = .component ∧ s.name = component

/-- The name under which an attribute may select a directive. -/
def selector? : Attribute → Option String
  | .static name _ _ => some name
  | .property name _ _ _ _ => some name
  | _ => none

/-- What stands for an attribute in the linked tree. -/
inductive AttributeResolved (index : SymbolIndex) : Attribute → List Attribute → Prop
  | halves (name expression : String) (p : Position) :
      AttributeResolved index (.twoWay name expression p)
        [.property name expression (.text expression) p true,
          .event (name ++ "Change") (expression ++ " = $event") p true]
  | static {name directive : String} (value : Option String) (p : Position)
      (selects : Selects index name directive) :
      AttributeResolved index (.static name value p)
        [.directive name value (value.map .text) p false (some directive)]
  | bound {name directive : String} (expression : String) (value : BoundValue) (p : Position) (twoWay : Bool)
      (selects : Selects index name directive) :
      AttributeResolved index (.property name expression value p twoWay)
        [.directive name (some expression) (some value) p true (some directive)]
  | kept {a : Attribute} (whole : ∀ name expression p, a ≠ .twoWay name expression p)
      (plain : ∀ name ∈ selector? a, ∀ directive, ¬ Selects index name directive) :
      AttributeResolved index a [a]

/-- What stands for a node in the linked tree. -/
inductive Resolved (index : SymbolIndex) : Node → Node → Prop
  | element {tag : String} {attributes : List Attribute} {parts : List (List Attribute)}
      {children children' : List Node} {p : Position} {selfClosing : Bool} {old component : Option String}
      (own : List.Forall₂ (AttributeResolved index) attributes parts)
      (inner : List.Forall₂ (Resolved index) children children')
      (names : ∀ name, component = some name ↔ StandsFor index tag name) :
      Resolved index (.element tag attributes children p selfClosing old)
        (.element tag parts.flatten children' p selfClosing component)
  | container {kind : String} {attributes : List Attribute} {parts : List (List Attribute)}
      {children children' : List Node} {p : Position}
      (own : List.Forall₂ (AttributeResolved index) attributes parts)
      (inner : List.Forall₂ (Resolved index) children children') :
      Resolved index (.container kind attributes children p) (.container kind parts.flatten children' p)
  | structural {name expression : String} {clauses : Clauses} {child child' : Node} {p : Position}
      {old directive : Option String} (inner : Resolved index child child')
      (names : ∀ found, directive = some found ↔
        name ∉ Framework.directives ∧ Selects index name found) :
      Resolved index (.structural name expression clauses child p old)
        (.structural name expression clauses child' p directive)
  | interpolation (expression : String) (value : BoundValue) (p : Position) :
      Resolved index (.interpolation expression value p) (.interpolation expression value p)
  | text (t : String) (p : Position) : Resolved index (.text t p) (.text t p)

/-- An attribute that selects nothing is kept. -/
theorem AttributeResolved.keep {a : Attribute} (whole : ∀ name expression p, a ≠ .twoWay name expression p)
    (plain : selector? a = none) : AttributeResolved index a [a] := by
  refine .kept whole fun name mem => ?_
  rw [plain] at mem
  cases mem

theorem directiveFor?_eq_some {name directive : String} :
    directiveFor? index name = some directive ↔ Selects index name directive := by
  unfold directiveFor? Selects
  cases index.attr name with
  | none => simp
  | some s => simp

/-! ### Statements and references -/

/-- The statements of an attribute that handles an event. -/
def handled : Attribute → List String
  | .event _ handler _ _ => Script.statements handler
  | _ => []

/-- Whether a statement is an assignment can be told. -/
def Readable (statement : String) : Prop :=
  ∃ found, Script.splitAssignment statement = .ok found

/-- The name that an attribute declares for its node, and the place where it does so. -/
def reference? : Attribute → Option (String × Position)
  | .reference name _ p => some (name, p)
  | _ => none

/-- The remark about a name that has been declared before. -/
def redeclaration (unit : String) (reference : String × Position) : Diagnostic where
  unit
  severity := .warning
  code := .unsupportedConstruct
  message := s!"Template reference #{reference.1} is declared more than once"
  line := some reference.2.line
  column := some reference.2.column

/-- Names that were not found are all that is remarked on besides the references. -/
def Remarked (unit : String) (references : List (String × Position)) (d : Diagnostic) : Prop :=
  d.code = .unresolvedReference ∨ ∃ reference ∈ references, d = redeclaration unit reference

/-- From one scope and sink to another the references are registered. -/
structure Registers (references : List (String × Position)) (s : TemplateScope) (t : Sink)
    (s' : TemplateScope) (t' : Sink) : Prop where
  keys : ∀ name, name ∈ s'.refs.keys ↔ name ∈ s.refs.keys ∨ name ∈ references.map (·.1)
  distinct : s.refs.keys.Nodup → s'.refs.keys.Nodup
  unit : t'.unit = t.unit
  remarks : ∃ added, t'.items = t.items ++ added ∧ (∀ d ∈ added, Remarked t.unit references d) ∧
    added.countP (·.code == .unsupportedConstruct) + s'.refs.keys.length =
      s.refs.keys.length + references.length

namespace Registers

variable {references references' : List (String × Position)} {s s' s'' : TemplateScope} {t t' t'' : Sink}

theorem of_sameRefs (refs : s'.refs = s.refs) (unit : t'.unit = t.unit) {added : List Diagnostic}
    (items : t'.items = t.items ++ added) (unresolved : ∀ d ∈ added, d.code = .unresolvedReference) :
    Registers [] s t s' t' where
  keys name := by simp [refs]
  distinct := refs ▸ id
  unit := unit
  remarks := by
    refine ⟨added, items, fun d mem => .inl (unresolved d mem), ?_⟩
    have none : added.countP (·.code == .unsupportedConstruct) = 0 := by
      rw [List.countP_eq_zero]
      intro d mem
      simp [unresolved d mem]
    rw [none, refs, List.length_nil, Nat.zero_add, Nat.add_zero]

theorem trans (h : Registers references s t s' t') (h' : Registers references' s' t' s'' t'') :
    Registers (references ++ references') s t s'' t'' where
  keys name := by rw [h'.keys, h.keys, or_assoc, List.map_append, List.mem_append]
  distinct := h'.distinct ∘ h.distinct
  unit := h'.unit.trans h.unit
  remarks := by
    obtain ⟨added, items, remarked, count⟩ := h.remarks
    obtain ⟨added', items', remarked', count'⟩ := h'.remarks
    refine ⟨added ++ added', by rw [items', items, List.append_assoc], ?_, ?_⟩
    · intro d mem
      rcases List.mem_append.mp mem with first | second
      · rcases remarked d first with unresolved | ⟨reference, among, same⟩
        · exact .inl unresolved
        · exact .inr ⟨reference, List.mem_append_left _ among, same⟩
      · rcases remarked' d second with unresolved | ⟨reference, among, same⟩
        · exact .inl unresolved
        · exact .inr ⟨reference, List.mem_append_right _ among, h.unit ▸ same⟩
    · rw [List.countP_append, List.length_append]
      omega

theorem perm (h : Registers references s t s' t') (same : references.Perm references') :
    Registers references' s t s' t' where
  keys name := by rw [h.keys, (same.map _).mem_iff]
  distinct := h.distinct
  unit := h.unit
  remarks := by
    obtain ⟨added, items, remarked, count⟩ := h.remarks
    refine ⟨added, items, fun d mem => ?_, same.length_eq ▸ count⟩
    exact (remarked d mem).imp_right fun ⟨reference, among, eq⟩ => ⟨reference, same.mem_iff.mp among, eq⟩

/-- A name is declared; if it was declared before, this is remarked on. -/
theorem declare (name : String) (p : Position) (ref : TemplateReference) (s : TemplateScope) (t : Sink) :
    Registers [(name, p)] s t { s with refs := s.refs.set name ref }
      (if s.refs.has name then
        t.add .warning .unsupportedConstruct s!"Template reference #{name} is declared more than once"
          (some p.line) (some p.column)
      else t) where
  keys other := by
    rw [Table.keys_set]
    split
    · rename_i old
      have among : name ∈ s.refs.keys := by
        simpa [Table.has, Table.keys] using old
      constructor
      · exact .inl
      · rintro (before | new)
        · exact before
        · rw [List.map_singleton, List.mem_singleton] at new
          exact new ▸ among
    · simp
  distinct h := Table.nodup_keys_set h name ref
  unit := by
    split <;> rfl
  remarks := by
    rw [Table.keys_set]
    split
    · refine ⟨[redeclaration t.unit (name, p)], rfl, fun d mem => ?_, ?_⟩
      · exact .inr ⟨_, List.mem_singleton_self _, List.mem_singleton.mp mem⟩
      · simp [redeclaration, Nat.add_comm]
    · exact ⟨[], (List.append_nil _).symm, by simp, by simp⟩

end Registers

/-! ### Work that remarks on names -/

/-- The work ends with a value, having remarked on names that were not found alone. -/
def Remarks (x : Noting α) (P : α → Prop) : Prop :=
  ∀ t : Sink, ∃ a t', x.run.run t = (.ok a, t') ∧ P a ∧ t'.unit = t.unit ∧
    ∃ added, t'.items = t.items ++ added ∧ ∀ d ∈ added, d.code = .unresolvedReference

namespace Remarks

variable {P Q : α → Prop} {x : Noting α}

theorem pure {a : α} (h : P a) : Remarks (Pure.pure a) P :=
  fun t => ⟨a, t, rfl, h, rfl, [], (List.append_nil _).symm, nofun⟩

theorem bind {f : α → Noting β} {R : β → Prop} (hx : Remarks x P) (hf : ∀ a, P a → Remarks (f a) R) :
    Remarks (x >>= f) R := by
  intro t
  obtain ⟨a, t₁, run, holds, unit, added, items, unresolved⟩ := hx t
  obtain ⟨b, t₂, run', holds', unit', added', items', unresolved'⟩ := hf a holds t₁
  refine ⟨b, t₂, ?_, holds', unit'.trans unit, added ++ added', by rw [items', items, List.append_assoc], ?_⟩
  · rw [ExceptT.run_bind, StateT.run_bind, run]
    exact run'
  · exact fun d mem => (List.mem_append.mp mem).elim (unresolved d) (unresolved' d)

theorem unresolvedAt (message : String) (p : Position) : Remarks (unresolvedAt message p) fun _ => True :=
  fun _ => ⟨⟨⟩, _, rfl, trivial, rfl, [_], rfl, fun _ mem => List.mem_singleton.mp mem ▸ rfl⟩

theorem forM {f : α → Noting PUnit} (h : ∀ a, Remarks (f a) fun _ => True) :
    ∀ l : List α, Remarks (l.forM f) fun _ => True
  | [] => pure trivial
  | a :: l => (h a).bind fun _ _ => forM h l

end Remarks

theorem checkPipes_remarks (index : SymbolIndex) (value : BoundValue) (p : Position) :
    Remarks (checkPipes index value p) fun _ => True := by
  refine .forM (fun step => ?_) _
  split
  · exact .pure trivial
  · exact .unresolvedAt _ _

theorem componentFor_remarks (index : SymbolIndex) (tag : String) (p : Position) :
    Remarks (componentFor index tag p) fun found => ∀ name, found = some name ↔ StandsFor index tag name := by
  have remark {found : Option String} (stands : ∀ name, found = some name ↔ StandsFor index tag name)
      (c : Prop) [Decidable c] (message : String) :
      Remarks (if c then do unresolvedAt message p; return found else return found)
        fun found => ∀ name, found = some name ↔ StandsFor index tag name := by
    split
    · exact (Remarks.unresolvedAt _ _).bind fun _ _ => .pure stands
    · exact .pure stands
  refine remark (fun name => ?_) _ _
  unfold StandsFor
  cases index.element tag with
  | none => simp
  | some s => simp

/-! ### Work on a template -/

/-- What work on a template comes to, from a scope and what has been noted before. -/
def linking (m : Linking α) (s : TemplateScope) (t : Sink) : Except Fault (α × TemplateScope) × Sink :=
  (m.run s).run.run t

theorem linking_bind (m : Linking α) (f : α → Linking β) (s : TemplateScope) (t : Sink) :
    linking (m >>= f) s t =
      match linking m s t with
      | (.ok (a, s'), t') => linking (f a) s' t'
      | (.error e, t') => (.error e, t') := by
  simp only [linking, StateT.run_bind, ExceptT.run_bind]
  rcases (m.run s).run.run t with ⟨_ | ⟨a, s'⟩, t'⟩ <;> rfl

/-- If all statements can be read the work ends with a value, the references being registered; it breaks
off otherwise. -/
def Reaches (statements : List String) (references : List (String × Position)) (m : Linking α)
    (P : α → Prop) : Prop :=
  ∀ s t,
    ((∀ statement ∈ statements, Readable statement) →
      ∃ a s' t', linking m s t = (.ok (a, s'), t') ∧ P a ∧ Registers references s t s' t') ∧
    (¬ (∀ statement ∈ statements, Readable statement) →
      ∃ t', linking m s t = (.error .historyExhausted, t'))

namespace Reaches

variable {statements statements' : List String} {references references' : List (String × Position)}
  {m : Linking α} {P Q : α → Prop}

theorem congr (h : Reaches statements references m P) (read : statements = statements')
    (same : references.Perm references') : Reaches statements' references' m P := by
  subst read
  intro s t
  refine ⟨fun readable => ?_, (h s t).2⟩
  obtain ⟨a, s', t', run, holds, registers⟩ := (h s t).1 readable
  exact ⟨a, s', t', run, holds, registers.perm same⟩

/-- Work that reads nothing and leaves the references alone. -/
theorem of_run
    (h : ∀ s t, ∃ a s' t', linking m s t = (.ok (a, s'), t') ∧ P a ∧ Registers references s t s' t') :
    Reaches [] references m P :=
  fun s t => ⟨fun _ => h s t, fun unread => absurd nofun unread⟩

theorem pure {a : α} (h : P a) : Reaches [] [] (Pure.pure a) P :=
  of_run fun s t => ⟨a, s, t, rfl, h, .of_sameRefs rfl rfl (List.append_nil _).symm nofun⟩

theorem bind {f : α → Linking β} {R : β → Prop} (hm : Reaches statements references m P)
    (hf : ∀ a, P a → Reaches statements' references' (f a) R) :
    Reaches (statements ++ statements') (references ++ references') (m >>= f) R := by
  intro s t
  simp only [List.forall_mem_append, linking_bind]
  refine ⟨fun read => ?_, fun unread => ?_⟩
  · obtain ⟨here, later⟩ := read
    obtain ⟨a, s₁, t₁, run, holds, registers⟩ := (hm s t).1 here
    obtain ⟨b, s₂, t₂, run', holds', registers'⟩ := (hf a holds s₁ t₁).1 later
    exact ⟨b, s₂, t₂, by rw [run]; exact run', holds', registers.trans registers'⟩
  · by_cases here : ∀ statement ∈ statements, Readable statement
    · obtain ⟨a, s₁, t₁, run, holds, -⟩ := (hm s t).1 here
      obtain ⟨t₂, failed⟩ := (hf a holds s₁ t₁).2 fun later => unread ⟨here, later⟩
      exact ⟨t₂, by rw [run]; exact failed⟩
    · obtain ⟨t₁, failed⟩ := (hm s t).2 here
      exact ⟨t₁, by rw [failed]⟩

/-- Nothing is read or registered but by the first part. -/
theorem bind_left {f : α → Linking β} {R : β → Prop} (hm : Reaches statements references m P)
    (hf : ∀ a, P a → Reaches [] [] (f a) R) : Reaches statements references (m >>= f) R := by
  simpa using hm.bind hf

theorem bind_pure {f : α → β} {R : β → Prop} (hm : Reaches statements references m P)
    (imp : ∀ a, P a → R (f a)) :
    Reaches statements references (m >>= fun a => Pure.pure (f a)) R :=
  hm.bind_left fun a holds => pure (imp a holds)

/-- Nothing is read or registered but by what follows. -/
theorem bind_right {f : α → Linking β} {R : β → Prop} (hm : Reaches [] [] m P)
    (hf : ∀ a, P a → Reaches statements references (f a) R) : Reaches statements references (m >>= f) R :=
  hm.bind hf

theorem lifted {x : Noting α} (h : Remarks x P) : Reaches [] [] (liftM x) P := by
  refine of_run fun s t => ?_
  obtain ⟨a, t', run, holds, unit, added, items, unresolved⟩ := h t
  refine ⟨a, s, t', ?_, holds, .of_sameRefs rfl unit items unresolved⟩
  change (x >>= fun a => Pure.pure (a, s)).run.run t = _
  rw [ExceptT.run_bind, StateT.run_bind, run]
  rfl

theorem modify {f : TemplateScope → TemplateScope} (kept : ∀ s, (f s).refs = s.refs) :
    Reaches [] [] (modify f : Linking PUnit) fun _ => True :=
  of_run fun s t => ⟨⟨⟩, f s, t, rfl, trivial, .of_sameRefs (kept s) rfl (List.append_nil _).symm nofun⟩

theorem splitAssignment (statement : String) :
    Reaches [statement] [] (liftM (Noting.lift (Script.splitAssignment statement))) fun _ => True := by
  intro s t
  rw [List.forall_mem_singleton]
  cases read : Script.splitAssignment statement with
  | ok found =>
      exact ⟨fun _ => ⟨found, s, t, rfl, trivial, .of_sameRefs rfl rfl (List.append_nil _).symm nofun⟩,
        fun unread => absurd ⟨found, read⟩ unread⟩
  | error f =>
      have back : f = .historyExhausted :=
        ((Script.tokenize_looksBack statement).bind fun _ => .ok _) f read
      refine ⟨fun ⟨found, readable⟩ => ?_, fun _ => ⟨t, by rw [← back]; rfl⟩⟩
      rw [read] at readable
      cases readable

theorem mapM {f : α → Linking β} {reads : α → List String} {R : α → β → Prop}
    (h : ∀ a, Reaches (reads a) [] (f a) (R a)) :
    ∀ l : List α, Reaches (l.flatMap reads) [] (l.mapM f) (List.Forall₂ R l)
  | [] => by
      rw [List.mapM_nil]
      exact pure .nil
  | a :: l => by
      rw [List.mapM_cons, List.flatMap_cons]
      exact (h a).bind fun b here => (mapM h l).bind_pure fun bs later => .cons here later

theorem forM {f : α → Linking PUnit} {declares : α → Option (String × Position)}
    (h : ∀ a, Reaches [] (declares a).toList (f a) fun _ => True) :
    ∀ l : List α, Reaches [] (l.filterMap declares) (l.forM f) fun _ => True
  | [] => pure trivial
  | a :: l => by
      refine ((h a).bind fun _ _ => forM h l).congr rfl ?_
      rw [List.filterMap_cons]
      cases declares a <;> exact .refl _

theorem forIn {f : String → PUnit → Linking (ForInStep PUnit)}
    (h : ∀ statement u, Reaches [statement] [] (f statement u) (· = .yield ⟨⟩)) :
    ∀ l : List String, Reaches l [] (forIn l ⟨⟩ f) fun _ => True
  | [] => by
      rw [List.forIn_nil]
      exact pure trivial
  | statement :: l => by
      rw [List.forIn_cons]
      refine (h statement ⟨⟩).bind fun next more => ?_
      rw [more]
      exact forIn h l

end Reaches

/-! ### Attributes -/

theorem noteMutation_reaches (expression : String) :
    Reaches [] [] (noteMutation expression) fun _ => True := by
  unfold noteMutation
  split
  · refine .modify fun s => ?_
    split <;> rfl
  · exact .pure trivial

theorem linkAttribute_reaches (index : SymbolIndex) (a : Attribute) :
    Reaches (handled a) [] (linkAttribute index a) (AttributeResolved index a) := by
  have unselected {name : String} (found : directiveFor? index name = none) (directive : String) :
      ¬ Selects index name directive := by
    rw [← directiveFor?_eq_some, found]
    nofun
  unfold linkAttribute
  cases a with
  | twoWay name expression p =>
      exact (noteMutation_reaches expression).bind_pure fun _ _ => .halves name expression p
  | static name value p =>
      dsimp only
      split
      · rename_i directive found
        exact .pure (.static value p (directiveFor?_eq_some.mp found))
      · rename_i found
        refine .pure (.kept (by simp) ?_)
        rintro _ ⟨⟩
        exact unselected found
  | property name expression value p twoWay =>
      dsimp only
      split
      · rename_i directive found
        exact .pure (.bound expression value p twoWay (directiveFor?_eq_some.mp found))
      · rename_i found
        refine (Reaches.lifted (checkPipes_remarks index value p)).bind_pure fun _ _ => .kept (by simp) ?_
        rintro _ ⟨⟩
        exact unselected found
  | event name handler p twoWay =>
      refine Reaches.bind_pure (.forIn (fun statement _ => ?_) _) fun _ _ => .keep (by simp) rfl
      refine (Reaches.splitAssignment statement).bind_left fun found _ => ?_
      split
      · exact (noteMutation_reaches _).bind_pure fun _ _ => rfl
      · exact .pure rfl
  | directive name expression value p bound resolved =>
      dsimp only
      split
      · exact (Reaches.lifted (checkPipes_remarks index _ p)).bind_pure fun _ _ => .keep (by simp) rfl
      · exact .pure (.keep (by simp) rfl)
  | reference name value p => exact .pure (.keep (by simp) rfl)

theorem linkAttributes_reaches (index : SymbolIndex) (attributes : List Attribute) :
    Reaches (attributes.flatMap handled) [] (linkAttributes index attributes) fun linked =>
      ∃ parts, List.Forall₂ (AttributeResolved index) attributes parts ∧ linked = parts.flatten :=
  (Reaches.mapM (linkAttribute_reaches index) attributes).bind_pure fun parts each => ⟨parts, each, rfl⟩

/-- Linking changes no reference. -/
theorem AttributeResolved.references {a : Attribute} {linked : List Attribute}
    (resolved : AttributeResolved index a linked) : linked.filterMap reference? = (reference? a).toList := by
  cases resolved with
  | kept => cases a <;> rfl
  | _ => rfl

theorem references_flatten {attributes : List Attribute} {parts : List (List Attribute)}
    (each : List.Forall₂ (AttributeResolved index) attributes parts) :
    parts.flatten.filterMap reference? = attributes.filterMap reference? := by
  induction each with
  | nil => rfl
  | @cons a linked _ _ here _ ih =>
      rw [List.flatten_cons, List.filterMap_append, ih, here.references, List.filterMap_cons]
      cases reference? a <;> rfl

theorem registerRefs_reaches (node : Node) (attributes : List Attribute) (kind : ReferenceKind) :
    Reaches [] (attributes.filterMap reference?) (registerRefs node attributes kind) fun _ => True := by
  refine .forM (fun a => ?_) attributes
  cases a with
  | reference name value p =>
      refine .of_run fun s t => ⟨⟨⟩, _, _, ?_, trivial, .declare name p ⟨name, kind, node⟩ s t⟩
      change linking (MonadState.get >>= fun s => _) s t = _
      rw [linking_bind]
      change linking (if s.refs.has name then _ else _) s t = _
      split <;> rfl
  | _ => exact .pure trivial

/-! ### Nodes -/

/-- A node is made from its attributes and its children, and its references are registered. -/
theorem linkParts_reaches {attributes : List Attribute} {children : List Node}
    (make : List Attribute → List Node → Node) (kind : ReferenceKind) {P : Node → Prop}
    (inner : Reaches ((attributesOfAll children).flatMap handled)
      ((attributesOfAll children).filterMap reference?) (linkNodes index children) (List.Forall₂ (Resolved index) children))
    (made : ∀ parts children', List.Forall₂ (AttributeResolved index) attributes parts →
      List.Forall₂ (Resolved index) children children' → P (make parts.flatten children')) :
    Reaches ((attributes ++ attributesOfAll children).flatMap handled)
      ((attributes ++ attributesOfAll children).filterMap reference?) (do
        let attributes ← linkAttributes index attributes
        let children ← linkNodes index children
        let node := make attributes children
        registerRefs node attributes kind
        return node) P := by
  have rest (linked : List Attribute)
      (each : ∃ parts, List.Forall₂ (AttributeResolved index) attributes parts ∧ linked = parts.flatten) :
      Reaches ((attributesOfAll children).flatMap handled)
        ((attributesOfAll children).filterMap reference? ++ attributes.filterMap reference?) (do
          let children ← linkNodes index children
          let node := make linked children
          registerRefs node linked kind
          return node) P := by
    obtain ⟨parts, own, rfl⟩ := each
    rw [← List.append_nil ((attributesOfAll children).flatMap handled)]
    refine inner.bind fun children' below => ?_
    have registered := registerRefs_reaches (make parts.flatten children') parts.flatten kind
    rw [references_flatten own] at registered
    exact registered.bind_pure fun _ _ => made parts children' own below
  refine ((linkAttributes_reaches index attributes).bind rest).congr List.flatMap_append.symm ?_
  rw [List.filterMap_append, List.nil_append]
  exact List.perm_append_comm

mutual

/-- Linking one node gives what stands for it. -/
theorem linkNode_reaches (index : SymbolIndex) : ∀ n, Reaches ((attributesOf n).flatMap handled)
    ((attributesOf n).filterMap reference?) (linkNode index n) (Resolved index n)
  | .element tag attributes children p selfClosing old => by
      unfold linkNode attributesOf
      exact (Reaches.lifted (componentFor_remarks index tag p)).bind_right fun component names =>
        linkParts_reaches
          (fun attributes children => .element tag attributes children p selfClosing component) _ (linkNodes_reaches index children) fun _ _ own inner => .element own inner names
  | .container kind attributes children p => by
      unfold linkNode attributesOf
      have inside (as : ReferenceKind) := linkParts_reaches
        (fun attributes children => .container kind attributes children p) as
        (linkNodes_reaches index children)
        fun _ _ (own : List.Forall₂ (AttributeResolved index) attributes _) inner =>
          Resolved.container own inner
      dsimp only
      split
      · refine (Reaches.modify fun _ => ?_).bind_right fun _ _ => inside _
        rfl
      · exact inside _
  | .structural name expression clauses child p old => by
      unfold linkNode attributesOf
      obtain ⟨directive, eq⟩ : ∃ directive, directive =
        if Framework.directives.contains name then none else directiveFor? index name := ⟨_, rfl⟩
      have names (found : String) : directive = some found ↔
          name ∉ Framework.directives ∧ Selects index name found := by
        rw [eq, ← directiveFor?_eq_some, ← List.contains_iff_mem]
        split <;> simp_all
      have inside : Reaches ((attributesOf child).flatMap handled)
          ((attributesOf child).filterMap reference?) (do
          checkPipes index (parseBoundValue clauses.expression (some p)) p
          return .structural name expression clauses (← linkNode index child) p directive)
          (Resolved index (.structural name expression clauses child p old)) :=
        (Reaches.lifted (checkPipes_remarks index _ p)).bind_right fun _ _ =>
          (linkNode_reaches index child).bind_pure fun _ inner => .structural inner names
      dsimp only
      rw [← eq]
      split
      · exact (Reaches.lifted (.unresolvedAt _ p)).bind_right fun _ _ => inside
      · exact inside
  | .interpolation expression value p => by
      unfold linkNode attributesOf
      exact (Reaches.lifted (checkPipes_remarks index value p)).bind_pure fun _ _ => .interpolation _ _ _
  | .text t p => by
      unfold linkNode attributesOf
      exact .pure (.text t p)

/-- Linking nodes gives what stands for them, in order. -/
theorem linkNodes_reaches (index : SymbolIndex) : ∀ ns, Reaches ((attributesOfAll ns).flatMap handled)
    ((attributesOfAll ns).filterMap reference?) (linkNodes index ns) (List.Forall₂ (Resolved index) ns)
  | [] => by
      unfold linkNodes attributesOfAll
      exact .pure .nil
  | n :: ns => by
      unfold linkNodes attributesOfAll
      rw [List.flatMap_append, List.filterMap_append]
      exact (linkNode_reaches index n).bind fun _ here =>
        (linkNodes_reaches index ns).bind_pure fun _ later => .cons here later

end

/-- The names that the references of a template declare, one for each reference. -/
def declaredNames (nodes : List Node) : List String :=
  ((attributesOfAll nodes).filterMap reference?).map (·.1)

/-- Registering references from nothing leaves each of their names once; the other times that a name is
declared are the remarks. -/
theorem Registers.counted {references : List (String × Position)} {s' : TemplateScope} {t t' : Sink}
    (h : Registers references {} t s' t') :
    (∀ name, name ∈ s'.refs.keys ↔ name ∈ references.map (·.1)) ∧ s'.refs.keys.Nodup ∧
      ∃ added, t'.items = t.items ++ added ∧ (∀ d ∈ added, Remarked t.unit references d) ∧
        added.countP (·.code == .unsupportedConstruct) + (references.map (·.1)).dedup.length =
          references.length := by
  have keys (name : String) : name ∈ s'.refs.keys ↔ name ∈ references.map (·.1) := by
    rw [h.keys]
    exact or_iff_right (List.not_mem_nil)
  have distinct : s'.refs.keys.Nodup := h.distinct List.nodup_nil
  have once : s'.refs.keys.Perm (references.map (·.1)).dedup :=
    (List.perm_ext_iff_of_nodup distinct (List.nodup_dedup _)).mpr fun name => by
      rw [keys, List.mem_dedup]
  obtain ⟨added, items, remarked, count⟩ := h.remarks
  refine ⟨keys, distinct, added, items, remarked, ?_⟩
  rw [← once.length_eq, count]
  exact Nat.zero_add _

/-- Linking a template ends exactly if all statements of its handlers can be read.  Then the tree is the
resolved one, the references are those of the template, and there is one remark for each reference whose
name was declared before. -/
theorem linkNodes_resolves (index : SymbolIndex) (nodes : List Node) (t : Sink) :
    (¬ (∀ statement ∈ (attributesOfAll nodes).flatMap handled, Readable statement) →
      ∃ t', linking (linkNodes index nodes) {} t = (.error .historyExhausted, t')) ∧
    ((∀ statement ∈ (attributesOfAll nodes).flatMap handled, Readable statement) →
      ∃ nodes' scope t', linking (linkNodes index nodes) {} t = (.ok (nodes', scope), t') ∧
        List.Forall₂ (Resolved index) nodes nodes' ∧
        (∀ name, name ∈ scope.refs.keys ↔ name ∈ declaredNames nodes) ∧ scope.refs.keys.Nodup ∧
        ∃ added, t'.items = t.items ++ added ∧
          (∀ d ∈ added, Remarked t.unit ((attributesOfAll nodes).filterMap reference?) d) ∧
          added.countP (·.code == .unsupportedConstruct) + (declaredNames nodes).dedup.length =
            (declaredNames nodes).length) := by
  obtain ⟨ends, breaks⟩ := linkNodes_reaches index nodes {} t
  refine ⟨breaks, fun readable => ?_⟩
  obtain ⟨nodes', scope, t', run, resolved, registers⟩ := ends readable
  obtain ⟨keys, distinct, counted⟩ := registers.counted
  refine ⟨nodes', scope, t', run, resolved, keys, distinct, ?_⟩
  rw [declaredNames, List.length_map]
  exact counted

/-- Two elements under one name, the first with a two-way binding and a handler. -/
def sharedName : List Node :=
  (Template.parse "<b [(v)]=\"x\" #r (click)=\"x = 1\"></b><i #r></i>").toOption.getD []

theorem linkNodes_resolves_sharedName :
    ∃ nodes' scope t', linking (linkNodes {} sharedName) {} { unit := "a.ts" } = (.ok (nodes', scope), t') ∧
      List.Forall₂ (Resolved {}) sharedName nodes' ∧ (∀ name, name ∈ scope.refs.keys ↔ name = "r") ∧
      t'.items.countP (·.code == .unsupportedConstruct) = 1 := by
  have statements : (attributesOfAll sharedName).flatMap handled = ["x = 1"] := by
    decide +kernel
  have readable : ∀ statement ∈ (attributesOfAll sharedName).flatMap handled, Readable statement := by
    rw [statements, List.forall_mem_singleton]
    exact ⟨some { target := "x", operator := "=", value := "1" }, by decide +kernel⟩
  have names : declaredNames sharedName = ["r", "r"] := by
    decide +kernel
  obtain ⟨nodes', scope, t', run, resolved, keys, -, added, items, -, count⟩ :=
    (linkNodes_resolves {} sharedName { unit := "a.ts" }).2 readable
  rw [names] at count
  refine ⟨nodes', scope, t', run, resolved, fun name => ?_, ?_⟩
  · rw [keys, names]
    simp
  · rw [items, List.nil_append]
    exact Nat.add_right_cancel count

/-- A handler whose last division is read as if it stood behind a bracket that was never opened. -/
def commentedBracket : List Node :=
  (Template.parse "<b (click)=\"/*(*/ ) / 2\"></b>").toOption.getD []

theorem unlinked_commentedBracket :
    commentedBracket.length = 1 ∧
      ∃ t', linking (linkNodes {} commentedBracket) {} { unit := "a.ts" } = (.error .historyExhausted, t') := by
  have statements : (attributesOfAll commentedBracket).flatMap handled = ["/*(*/ ) / 2"] := by
    decide +kernel
  have unread : Script.splitAssignment "/*(*/ ) / 2" = .error .historyExhausted := by
    decide +kernel
  refine ⟨by decide +kernel, (linkNodes_reaches {} commentedBracket {} { unit := "a.ts" }).2 ?_⟩
  rw [statements, List.forall_mem_singleton]
  rintro ⟨found, read⟩
  rw [unread] at read
  cases read

end Model

end ReactMigration
