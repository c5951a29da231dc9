import ReactMigration.Proofs.BoundPaths
import ReactMigration.Proofs.FieldKinds
import ReactMigration.Proofs.PipeChains
import ReactMigration.Proofs.ScopeNames
import ReactMigration.Proofs.TemplateWrites

/-!
Two-way bindings.

Linking splits a two-way binding into a property and an event that assigns to the property's path.  Converted by
itself, the first half gives one property with the path as its code, and the second one handler whose only statement
calls the setter of the state cell.  What is converted before and after on the same element adds to both and takes
nothing away.
-/

namespace ReactMigration

open ReactMigration.Template
open ReactMigration.Text
open ReactMigration.Script (IsIdentifier pathText)
open ReactMigration.Recast (KeywordLast Foreign IsValue setterCall)

/-- Without the separator there is nothing before it. -/
theorem splitLast_single {separator : Char} {s : String} (absent : separator ∉ s.toList) :
    splitLast separator s = ("", s) := by
  have other : s.toList.reverse.all (· != separator) = true := by
    refine List.all_eq_true.mpr fun c mem => ?_
    rw [bne_iff_ne]
    rintro rfl
    exact absent (List.mem_reverse.mp mem)
  have none : NotNext (· != separator) [] := by simp [NotNext]
  have taken := takeWhile_append_of_notNext other none
  have left : s.toList.reverse.dropWhile (· != separator) = [] :=
    List.dropWhile_eq_nil_iff.mpr (List.all_eq_true.mp other)
  rw [List.append_nil] at taken
  unfold splitLast
  simp only [taken, left, List.drop_nil, List.reverse_nil, List.reverse_reverse, String.ofList_toList]

/-! ### Bags that grow -/

namespace PropBag

/-- Every property and every handler is kept. -/
structure Grows (b b' : PropBag) : Prop where
  attrs : b.attrs ⊆ b'.attrs
  handlers : ∀ prop hs, b.handlers.get? prop = some hs → ∃ more, b'.handlers.get? prop = some (hs ++ more)

variable {b b' b'' : PropBag}

theorem Grows.refl (b : PropBag) : b.Grows b :=
  ⟨List.Subset.refl _, fun _ hs found => ⟨[], by rw [found, List.append_nil]⟩⟩

theorem Grows.trans (h : b.Grows b') (h' : b'.Grows b'') : b.Grows b'' := by
  refine ⟨List.Subset.trans h.attrs h'.attrs, fun prop hs found => ?_⟩
  obtain ⟨more, found⟩ := h.handlers prop hs found
  obtain ⟨others, found⟩ := h'.handlers prop _ found
  exact ⟨more ++ others, by rw [found, List.append_assoc]⟩

theorem grows_attrs (more : b.attrs ⊆ b'.attrs) (same : b'.handlers = b.handlers) : b.Grows b' :=
  ⟨more, fun _ hs found => ⟨[], by rw [same, found, List.append_nil]⟩⟩

theorem grows_addAttr (name code : String) : b.Grows (b.addAttr name code) :=
  grows_attrs (List.subset_append_left _ _) rfl

theorem grows_addHandler (h : Option Handler) : b.Grows (b.addHandler h) := by
  cases h with
  | none => exact .refl b
  | some h =>
      refine ⟨List.Subset.refl _, fun prop hs found => ?_⟩
      rw [addHandler, Table.get?_set]
      split
      · rename_i same
        subst same
        exact ⟨[h], by rw [found]; rfl⟩
      · exact ⟨[], by rw [found, List.append_nil]⟩

theorem grows_property (name code : String) (isComponent : Bool) (formValue : Option String) :
    b.Grows (b.property name code isComponent formValue) := by
  unfold property
  repeat' split
  all_goals first
    | exact grows_addAttr _ _
    | exact grows_attrs (List.Subset.refl _) rfl

theorem grows_static {name : String} {value : Option String} {p : Position} {isComponent : Bool}
    (given : Converting.Gives (b.static name value p isComponent) b') : b.Grows b' := by
  unfold static at given
  split at given
  · exact given.pure ▸ .refl b
  · extract_lets text prop set ends at given
    have added (u : Unit) (given : Converting.Gives (ends u) b') : b.Grows b' := by
      unfold ends at given
      split at given
      · obtain ⟨_, -, given⟩ := given.bind
        exact given.pure ▸ .refl b
      · split at given
        · exact given.pure ▸ grows_attrs (List.Subset.refl _) rfl
        · split at given
          · exact given.pure ▸ grows_attrs (List.Subset.refl _) rfl
          · exact given.pure ▸ grows_attrs (List.subset_append_left _ _) rfl
    split at given
    · obtain ⟨u, -, given⟩ := given.bind
      exact added u given
    · exact added () given

theorem grows_builtinDirective {env : TemplateEnv} {s : Scope} {name : String} {expression : Option String}
    {value : Option BoundValue} {p : Position} {isBound : Bool}
    (given : Converting.Gives (b.builtinDirective env s name expression value p isBound) b') : b.Grows b' := by
  unfold builtinDirective at given
  split at given
  · split at given
    · obtain ⟨code, -, given⟩ := given.bind
      exact given.pure ▸ grows_attrs (List.Subset.refl _) rfl
    · exact given.pure ▸ grows_attrs (List.Subset.refl _) rfl
  · split at given
    · split at given
      · obtain ⟨code, -, given⟩ := given.bind
        exact given.pure ▸ grows_attrs (List.Subset.refl _) rfl
      · obtain ⟨_, -, given⟩ := given.bind
        exact given.pure ▸ .refl b
    · exact given.pure ▸ .refl b

/-- Every property is printed, and with every handler the function for its event. -/
theorem finish_holds {activeClass : Option String} {attrs : List MarkupAttr}
    (given : Converting.Gives (b.finish activeClass) attrs) :
    b.attrs ⊆ attrs ∧ ∀ prop hs, b.handlers.get? prop = some hs →
      ({ name := prop, value := some (Handler.merge hs) } : MarkupAttr) ∈ attrs := by
  unfold finish at given
  obtain ⟨classes, -, given⟩ := given.bind
  rw [given.pure]
  refine ⟨fun attr mem => by simp [mem], fun prop hs found => ?_⟩
  have listed := List.mem_map_of_mem (f := fun (x : String × List Handler) =>
    ({ name := x.1, value := some (Handler.merge x.2) } : MarkupAttr)) (Table.mem_of_get? found)
  exact List.mem_append_right _ listed

end PropBag

variable {env : TemplateEnv} {s : Scope} {isComponent : Bool} {formValue : Option String}

theorem addAttribute_grows {consumed : List String} {e e' : ElementParts} {attr : Attribute}
    (given : Converting.Gives (addAttribute env s isComponent formValue consumed e attr) e') : e.bag.Grows e'.bag := by
  unfold addAttribute at given
  split at given
  · exact given.pure ▸ .refl e.bag
  · cases attr with
    | static name value p =>
        dsimp only at given
        split at given
        · exact given.pure ▸ .refl e.bag
        · split at given
          · exact given.pure ▸ .refl e.bag
          · obtain ⟨bag, gathered, given⟩ := given.bind
            exact given.pure ▸ PropBag.grows_static gathered
    | property name expression value p twoWay =>
        obtain ⟨code, -, given⟩ := given.bind
        split at given
        · exact given.pure ▸ .refl e.bag
        · split at given
          · exact given.pure ▸ .refl e.bag
          · exact given.pure ▸ PropBag.grows_property name code isComponent formValue
    | event name handler p twoWay =>
        obtain ⟨h, -, given⟩ := given.bind
        exact given.pure ▸ PropBag.grows_addHandler h
    | twoWay name expression p => exact given.pure ▸ .refl e.bag
    | reference name value p =>
        obtain ⟨d, -, given⟩ := given.bind
        split at given
        · rename_i ref _
          have marked (given : Converting.Gives (pure { e with bag := { e.bag with ref := some ref } }) e') :
              e.bag.Grows e'.bag :=
            given.pure ▸ PropBag.grows_attrs (List.Subset.refl _) rfl
          split at given
          · obtain ⟨_, -, given⟩ := given.bind
            exact marked given
          · exact marked given
        · exact given.pure ▸ .refl e.bag
    | directive name expression value p isBound resolved =>
        dsimp only at given
        split at given
        · exact given.pure ▸ .refl e.bag
        · obtain ⟨bag, gathered, given⟩ := given.bind
          exact given.pure ▸ PropBag.grows_builtinDirective gathered

theorem addAttributes_grows {consumed : List String} : ∀ {attributes : List Attribute} {e e' : ElementParts},
    Converting.Gives (attributes.foldlM (addAttribute env s isComponent formValue consumed) e) e' → e.bag.Grows e'.bag
  | [], _, _, given => by
      rw [given.pure]
      exact .refl _
  | attr :: attributes, e, e', given => by
      rw [List.foldlM_cons] at given
      obtain ⟨first, one, given⟩ := given.bind
      exact (addAttribute_grows one).trans (addAttributes_grows given)

theorem applyLink_grows {tag : String} {e : ElementParts} {linked : String × PropBag}
    (given : Converting.Gives (applyLink tag isComponent e) linked) : e.bag.Grows linked.2 := by
  unfold applyLink at given
  split at given
  · exact given.pure ▸ .refl e.bag
  · split at given
    · obtain ⟨_, -, given⟩ := given.bind
      exact given.pure ▸ PropBag.grows_attrs (List.subset_cons_self _ _) rfl
    · split at given
      · obtain ⟨_, -, given⟩ := given.bind
        exact given.pure ▸ .refl e.bag
      · obtain ⟨_, -, given⟩ := given.bind
        rw [given.pure]
        exact PropBag.grows_addHandler (some _)

/-- The element is a generated component. -/
def isGenerated (index : SymbolIndex) (component : Option String) : Bool :=
  (if present component then index.lookup (component.getD "") else none).isSome

/-- The property that holds the value of the element, if it is a form control and no component. -/
def controlValue (index : SymbolIndex) (component : Option String) (tag : String) (attributes : List Attribute) :
    Option String :=
  if isGenerated index component then none else formValueOf tag attributes

theorem elementTag_generated {tag : String} {component : Option String} {found : String × Bool}
    (given : Converting.Gives (elementTag env tag component) found) : found.2 = isGenerated env.index component := by
  unfold elementTag at given
  unfold isGenerated
  split at given
  · rename_i symbol same
    obtain ⟨_, -, given⟩ := given.bind
    rw [given.pure, same]
    rfl
  · rename_i same
    rw [same]
    split at given
    · obtain ⟨_, -, given⟩ := given.bind
      rw [given.pure]
      rfl
    · rw [given.pure]
      rfl

/-- The attributes of a start tag without custom directives are gathered in their order, and nothing of it is lost. -/
theorem startTag_gathered {tag : String} {attributes : List Attribute} {component : Option String} {start : StartTag}
    (undirected : directiveUses env.index 0 [] attributes = .ok [])
    (given : Converting.Gives (startTag env s tag attributes component) start) :
    ∃ e, Converting.Gives (attributes.foldlM (addAttribute env s (isGenerated env.index component)
        (controlValue env.index component tag attributes) []) {}) e ∧ e.bag.Grows start.bag := by
  unfold startTag at given
  obtain ⟨found, tagged, given⟩ := given.bind
  obtain ⟨uses, claims, given⟩ := given.bind
  obtain rfl : uses = [] := (Except.ok.inj (undirected.symm.trans claims.lift)).symm
  obtain ⟨e, gathered, given⟩ := given.bind
  obtain ⟨linked, navigates, given⟩ := given.bind
  obtain ⟨applied, unapplied, given⟩ := given.bind
  obtain ⟨wrapped, -, given⟩ := given.bind
  rw [elementTag_generated tagged] at gathered
  refine ⟨e, gathered, ?_⟩
  rw [given.pure]
  have kept : applied = (linked.2, []) := unapplied.pure
  rw [kept]
  exact applyLink_grows navigates

/-! ### Bound paths -/

/-- A path of identifiers that starts with a name. -/
structure BoundPath where
  base : List Char
  keys : List (List Char)
  identifier : IsIdentifier base
  identifiers : ∀ key ∈ keys, IsIdentifier key
  refers : Script.wordKind (String.ofList base) = .identifier

namespace BoundPath

variable (path : BoundPath)

/-- The name at the front. -/
def cell : String :=
  String.ofList path.base

def text : String :=
  String.ofList (path.base ++ pathText path.keys)

/-- The assignment of the event to the path. -/
def assignment : String :=
  path.text ++ " = $event"

/-- The call that sets the part of the cell that the path leads to. -/
def update (value : String) : String :=
  setterCall (Naming.setterName path.cell) path.base path.keys value.toList

/-- A state cell, and nothing else, is at the front of the path; no key within the path is the keyword. -/
structure IsState (ctx : RecastContext) : Prop where
  cell : ctx.state.get? path.cell = some (Naming.setterName path.cell)
  listed : path.cell ∈ ctx.members
  unclaimed : Recast.Unclaimed ctx path.base
  inner : ∀ key ∈ path.keys.dropLast, key ≠ "this".toList

variable {path : BoundPath} {ctx : RecastContext} {locals : Table String}

theorem cell_ne (path : BoundPath) : path.cell ≠ "$event" := by
  intro same
  have named : path.base = "$event".toList := by rw [← same, cell, String.toList_ofList]
  exact path.identifier.notMem (by decide : Script.isIdentifierChar '$' = false) (by rw [named]; decide)

theorem isPath_text (path : BoundPath) : ∀ a ∈ path.base ++ pathText path.keys, Pattern.isPath a = true := by
  intro a mem
  obtain mem | mem := List.mem_append.mp mem
  · exact Recast.isPath_of_letter (.inl (path.identifier.letter mem))
  · exact Recast.isPath_of_letter (Recast.pathText_letters path.identifiers mem)

theorem assignment_toList (path : BoundPath) :
    path.assignment.toList = path.base ++ (pathText path.keys ++ Script.eventAssigned) := by
  unfold assignment text Script.eventAssigned
  rw [String.toList_append, String.toList_ofList (l := path.base ++ pathText path.keys), List.append_assoc]

theorem isClause_assignment (path : BoundPath) : IsClause path.assignment := by
  have whole : path.assignment.toList = (path.base ++ pathText path.keys) ++ (" = ".toList ++ "$event".toList) := by
    rw [path.assignment_toList, ← List.append_assoc]
    rfl
  have plain : Plain ((path.base ++ pathText path.keys) ++ " = ".toList) := by
    refine .append (fun a mem => ?_) (by decide)
    have path := path.isPath_text a mem
    rw [Pattern.isPath, Bool.or_eq_true, beq_iff_eq] at path
    obtain name | rfl := path
    · refine ⟨Script.isPlain_of_isName name, ?_⟩
      rintro rfl
      exact absurd name (by decide)
    · decide
  exact isClause_around whole (Recast.trimmed_of_isPath path.isPath_text) (by simp [path.identifier.visible]) plain
    ⟨by decide, by decide⟩ (by decide) (Plain.undivided (by decide))

theorem keywordLast (inner : ∀ key ∈ path.keys.dropLast, key ≠ "this".toList) : KeywordLast path.base path.keys := by
  intro key mem
  cases keys : path.keys with
  | nil => simp [keys] at mem
  | cons first rest =>
      rw [keys, List.dropLast_cons_of_ne_nil (List.cons_ne_nil _ _), List.mem_cons] at mem
      obtain rfl | mem := mem
      · intro same
        have refers := path.refers
        rw [same] at refers
        exact absurd refers (by decide)
      · exact inner key (keys ▸ mem)

theorem isIdentifier_setterName (path : BoundPath) : IsIdentifier (Naming.setterName path.cell).toList := by
  obtain ⟨a, rest, same, -⟩ := path.identifier.cons
  have first : Script.isIdentifierChar a = true → (upper a).all Script.isIdentifierChar = true :=
    forall_ascii (P := fun a => Script.isIdentifierChar a = true → (upper a).all Script.isIdentifierChar = true)
      (by decide +kernel) (Script.isIdentifierChar_ascii (path.identifier.letter (by rw [same]; simp))).1
  have letters := path.identifier.letters
  rw [same, List.all_cons, Bool.and_eq_true] at letters
  have whole : (Naming.setterName path.cell).toList = "set".toList ++ (Text.upper a ++ rest) := by
    simp [Naming.setterName, upperFirst, cell, same]
  rw [whole]
  have set : "set".toList.all Script.isIdentifierChar = true := by decide
  refine ⟨rfl, ?_⟩
  rw [List.all_append, List.all_append, set, first letters.1, letters.2]
  rfl

/-- The text through which the path is addressed. -/
theorem instance_cell (path : BoundPath) : ("this." ++ path.cell).toList = Recast.instanceDot ++ path.base := by
  simp [cell, Recast.instanceDot]

theorem trim_text (path : BoundPath) : trim path.text = path.text := by
  refine Trimmed.trim ?_
  rw [text, String.toList_ofList]
  exact Recast.trimmed_of_isPath path.isPath_text

/-- Read in a template, the path is itself. -/
theorem IsState.codeOf (state : path.IsState env.names) (free : s.locals.get? path.cell = none) :
    ∃ source, s.codeOf env path.text = Recast.result env.names source ∧
      Recast.text env.names source = path.text := by
  have image := Recast.expressionNames_member state.listed free path.cell_ne
  have renamed := Script.renameIdentifiers_path path.identifier path.identifiers path.refers image
  have read := Recast.text_read state.unclaimed path.identifier path.identifiers (keywordLast state.inner)
  rw [instance_cell, List.append_assoc] at renamed
  have renamed' : Script.renameIdentifiers (trim path.text) (Recast.expressionNames env.names s.locals) =
      .ok (String.ofList (Recast.instanceDot ++ (path.base ++ pathText path.keys))) := by
    rw [path.trim_text]
    exact renamed
  exact ⟨_, by rw [Scope.codeOf, Recast.expressionBody, renamed']; rfl, read⟩

/-- The assignment of the event is the update with the value that the event stands for. -/
theorem IsState.codeOf_assignment (state : path.IsState env.names) (free : s.locals.get? path.cell = none)
    {value : String} (given : s.locals.get? "$event" = some value) (plain : IsValue value.toList) :
    ∃ source, s.codeOf env path.assignment = Recast.result env.names source ∧
      Recast.text env.names source = path.update value := by
  have image := Recast.expressionNames_member state.listed free path.cell_ne
  have other : value ≠ "$event" := by
    rintro rfl
    exact absurd (plain.letters '$' (by decide)) (by decide)
  have held := @Recast.expressionNames_event env.names _ _ given other
  have renamed := Script.renameIdentifiers_assignment path.identifier path.identifiers path.refers image held
  have written := Recast.text_write state.unclaimed state.cell path.isIdentifier_setterName path.identifier path.identifiers
    (keywordLast state.inner) plain
  rw [instance_cell, List.append_assoc] at renamed
  have source : trim path.assignment = String.ofList (path.base ++ (pathText path.keys ++ Script.eventAssigned)) := by
    rw [path.isClause_assignment.trimmed, ← path.assignment_toList, String.ofList_toList]
  rw [Recast.assignmentTail] at written
  exact ⟨_, by rw [Scope.codeOf, Recast.expressionBody, source, renamed]; rfl, written⟩

theorem statements_settle (env : TemplateEnv) (s : Scope) (value : String) (path : BoundPath) :
    Converting.Settles (Converting.statements env.names (s.locals.set "$event" value) path.assignment) (do
      let code ← { s with locals := s.locals.set "$event" value }.codeOf env path.assignment
      .ok [code]) := by
  have single : Script.statements path.assignment = [path.assignment] := by
    have joined := @statements_joined path.assignment [] (by simpa using path.isClause_assignment)
    simpa using joined
  have settled := Converting.Settles.mapM
    (Scope.expression_settles env { s with locals := s.locals.set "$event" value }) [path.assignment]
  rw [List.mapM_cons (f := Scope.codeOf env _)] at settled
  unfold Converting.statements
  rw [single]
  exact settled

end BoundPath

/-! ### The halves -/

/-- A two-way binding of a path. -/
structure TwoWay where
  name : String
  path : BoundPath
  position : Position

namespace TwoWay

variable (b : TwoWay)

/-- The binding as it stands in a template. -/
def whole : Attribute :=
  .twoWay b.name b.path.text b.position

def valueHalf : Attribute :=
  .property b.name b.path.text (.text b.path.text) b.position true

def changeHalf : Attribute :=
  .event (b.name ++ "Change") b.path.assignment b.position true

/-- The name has no other use: it says neither where to listen nor for which key, and stands for neither a switch
nor a link. -/
structure IsPlain : Prop where
  target : ':' ∉ b.name.toList
  keys : '.' ∉ b.name.toList
  noSwitch : b.name ≠ "ngSwitch"
  noLink : b.name ≠ "routerLink"

/-- The property for the value, `formValue` being the one that holds the value of a form control. -/
def valueProp (formValue : Option String) : String :=
  if b.name = "ngModel" then formValue.getD "value" else b.name

/-- The property of the form control that is read when it changes. -/
def control? (formValue : Option String) : Option String :=
  if b.name = "ngModel" then formValue else none

/-- The event that tells of changes. -/
def event (isComponent : Bool) : String :=
  if b.name = "ngModel" ∧ isComponent = true then "valueChange" else b.name ++ "Change"

/-- The new value in a handler: what a form control holds, or what the event brings. -/
def newValue (control : Option String) : String :=
  (control.map ("event.target." ++ ·)).getD "value"

/-- The handler of an event that tells of changes. -/
def handlerOf (event : String) (control : Option String) (statements : List String) : Handler where
  prop := if control.isSome then "onChange" else Naming.callbackPropName event
  param := if control.isSome then "event" else "value"
  statements

/-- The handler of changes, with the update of the path alone. -/
def handler (isComponent : Bool) (formValue : Option String) : Handler :=
  handlerOf (b.event isComponent) (b.control? formValue) [b.path.update (newValue (b.control? formValue))]

variable {b : TwoWay}

/-- The values that form controls have. -/
def IsFormValue (formValue : Option String) : Prop :=
  formValue = none ∨ formValue = some "checked" ∨ formValue = some "value"

theorem isFormValue_of (index : SymbolIndex) (component : Option String) (tag : String) (attributes : List Attribute) :
    IsFormValue (controlValue index component tag attributes) := by
  unfold controlValue formValueOf
  split
  · exact .inl rfl
  · split
    · exact .inl rfl
    · dsimp only
      split
      · exact .inr (.inl rfl)
      · exact .inr (.inr rfl)

theorem IsFormValue.present {control : Option String} (form : IsFormValue control) :
    ReactMigration.present control = control.isSome := by
  obtain rfl | rfl | rfl := form <;> decide

theorem IsFormValue.control (form : IsFormValue formValue) (b : TwoWay) : IsFormValue (b.control? formValue) := by
  unfold control?
  split
  · exact form
  · exact .inl rfl

theorem IsFormValue.newValue {control : Option String} (form : IsFormValue control) :
    IsValue (newValue control).toList := by
  have letters (x : List Char) (all : x.all (fun a => Script.isIdentifierChar a || a == '.') = true) :
      ∀ a ∈ x, Script.isIdentifierChar a = true ∨ a = '.' := by
    intro a mem
    simpa using List.all_eq_true.mp all a mem
  obtain rfl | rfl | rfl := form
  · exact ⟨letters _ (by decide), by decide, by decide⟩
  · exact ⟨letters _ (by decide), by decide, by decide⟩
  · exact ⟨letters _ (by decide), by decide, by decide⟩

/-- The half for the value is converted with the code of the path. -/
theorem valueHalf_settles (plain : b.IsPlain) (bound : b.name = "ngModel" ∨ isComponent = true)
    (form : IsFormValue formValue) (e : ElementParts) :
    Converting.Settles (addAttribute env s isComponent formValue [] e b.valueHalf) (do
      let code ← s.codeOf env b.path.text
      .ok { e with bag := e.bag.addAttr (b.valueProp formValue) code }) := by
  have code : Converting.Settles (s.boundAt env (.text b.path.text) b.position) (s.codeOf env b.path.text) :=
    Scope.expression_settles env s b.path.text
  have held (code : String) : e.bag.property b.name code isComponent formValue =
      e.bag.addAttr (b.valueProp formValue) code := by
    unfold PropBag.property valueProp
    by_cases model : b.name = "ngModel"
    · rw [form.present, model]
      obtain rfl | rfl | rfl := form <;> rfl
    · rw [if_neg (by simpa using model), if_pos (bound.resolve_left model), if_neg model]
  unfold addAttribute valueHalf
  rw [if_neg (by simp [takenName?])]
  refine code.bind (g := fun code => .ok { e with bag := e.bag.addAttr (b.valueProp formValue) code })
    fun code' _ => ?_
  rw [if_neg (by simpa using plain.noSwitch), if_neg (by simpa using plain.noLink), held]
  exact .pure _

theorem ofBinding_settles {name : String} (target : ':' ∉ name.toList) (keys : '.' ∉ name.toList)
    {ctx : RecastContext} {locals : Table String} {handler : String} {p : Position} {r : Except Fault (List String)}
    {control : Option String} (form : IsFormValue control)
    (recast : Converting.Settles (Converting.statements ctx (locals.set "$event" (newValue control)) handler) r) :
    Converting.Settles (Handler.ofBinding ctx locals name handler p true isComponent control) (do
      let statements ← r
      .ok (some (handlerOf name control statements))) := by
  have single : splitAt '.' name = [name] := splitAt_single keys
  unfold Handler.ofBinding
  rw [splitLast_single target]
  dsimp only
  rw [if_neg (by decide), single]
  obtain rfl | rfl | rfl := form
  · exact recast.bind (g := fun ss => .ok (some (handlerOf name none ss))) fun ss _ => .pure _
  · exact recast.bind (g := fun ss => .ok (some (handlerOf name (some "checked") ss))) fun ss _ => .pure _
  · exact recast.bind (g := fun ss => .ok (some (handlerOf name (some "value") ss))) fun ss _ => .pure _

theorem eq_ngModel_iff : b.name ++ "Change" = "ngModelChange" ↔ b.name = "ngModel" := by
  have split : "ngModelChange" = "ngModel" ++ "Change" := by decide
  rw [split]
  constructor
  · intro same
    have := congrArg String.toList same
    rw [String.toList_append, String.toList_append] at this
    exact String.toList_inj.mp (List.append_cancel_right this)
  · intro same
    rw [same]

theorem event_single (plain : b.IsPlain) : ':' ∉ (b.event isComponent).toList ∧ '.' ∉ (b.event isComponent).toList := by
  unfold event
  split
  · decide
  · rw [String.toList_append]
    exact ⟨by simp [plain.target], by simp [plain.keys]⟩

/-- The scope of the half for changes. -/
def changeScope (b : TwoWay) (s : Scope) (formValue : Option String) : Scope :=
  { s with locals := s.locals.set "$event" (newValue (b.control? formValue)) }

/-- The half for changes is converted with the code of the assignment. -/
theorem changeHalf_settles (plain : b.IsPlain) (form : IsFormValue formValue) (e : ElementParts) :
    Converting.Settles (addAttribute env s isComponent formValue [] e b.changeHalf) (do
      let code ← (b.changeScope s formValue).codeOf env b.path.assignment
      .ok { e with
        bag := e.bag.addHandler (some (handlerOf (b.event isComponent) (b.control? formValue) [code])) }) := by
  have control := form.control b
  have recast := BoundPath.statements_settle env s (newValue (b.control? formValue)) b.path
  obtain ⟨target, keys⟩ := @event_single isComponent _ plain
  have bound := @ofBinding_settles isComponent _ target keys _ _ _ b.position _ _ control recast
  have isEvent : (if (b.name ++ "Change" == "ngModelChange" && isComponent) = true then "valueChange"
      else b.name ++ "Change") = b.event isComponent := by
    simp only [event, Bool.and_eq_true, beq_iff_eq, eq_ngModel_iff]
  have isControl : (if (b.name ++ "Change" == "ngModelChange") = true then formValue else none) = b.control? formValue := by
    simp only [control?, beq_iff_eq, eq_ngModel_iff]
  unfold addAttribute changeHalf
  rw [if_neg (by simp [takenName?])]
  dsimp only
  rw [isEvent, isControl, Bool.true_or]
  have settled := bound.bind (g := fun h => .ok { e with bag := e.bag.addHandler h }) fun h _ => .pure _
  rw [bind_assoc, bind_assoc] at settled
  exact settled

/-! ### Linking -/

variable {index : SymbolIndex}

/-- Linking splits the binding into its halves. -/
theorem linkAttribute_runs (b : TwoWay) (scope : Model.TemplateScope) :
    Runs (Model.linkAttribute index b.whole) scope fun linked _ => linked = [b.valueHalf, b.changeHalf] :=
  (Model.noteMutation_marks b.path.text scope).bind fun _ _ _ => .pure rfl

theorem linkAttributes_runs {attributes : List Attribute} (bound : b.whole ∈ attributes) (scope : Model.TemplateScope) :
    Runs (Model.linkAttributes index attributes) scope fun linked _ => [b.valueHalf, b.changeHalf] <:+: linked := by
  have each : ∀ a ∈ attributes, ∀ s : Model.TemplateScope, True → Runs (Model.linkAttribute index a) s fun linked _ =>
      True ∧ (a = b.whole → linked = [b.valueHalf, b.changeHalf]) := by
    intro a _ s _
    by_cases same : a = b.whole
    · subst same
      exact (b.linkAttribute_runs s).mono fun _ _ halves => ⟨trivial, fun _ => halves⟩
    · exact (Model.linkAttribute_marks a s).mono fun _ _ _ => ⟨trivial, fun h => absurd h same⟩
  refine (Runs.mapM trivial each).bind fun parts _ linked => .pure ?_
  obtain ⟨part, mem, halves⟩ := mem_right_of_forall₂ linked.2 bound
  rw [halves rfl] at mem
  exact List.infix_of_mem_flatten mem

/-- An element with the binding is linked into one with both halves. -/
theorem linkNode_runs {tag : String} {attributes : List Attribute} {children : List Node} {p : Position}
    {closed : Bool} {before : Option String} (bound : b.whole ∈ attributes) (scope : Model.TemplateScope) :
    Runs (Model.linkNode index (.element tag attributes children p closed before)) scope fun node _ =>
      ∃ linked children' component, node = .element tag linked children' p closed component ∧
        [b.valueHalf, b.changeHalf] <:+: linked := by
  unfold Model.linkNode
  refine .lifted_bind (Model.componentFor_notes tag p) fun component _ => ?_
  refine (linkAttributes_runs bound scope).bind fun linked scope halves => ?_
  refine (Model.linkNodes_marks children scope).bind fun children' scope _ => ?_
  exact (Model.registerRefs_marks _ _ _ scope).bind fun _ _ _ => .pure ⟨linked, children', component, rfl, halves⟩

/-! ### Elements -/

/-- What is carried of a binding: the property with the path as its code, and the handler among those of its event. -/
structure Carries (b : TwoWay) (isComponent : Bool) (formValue : Option String) (attrs : List MarkupAttr) : Prop where
  value : { name := b.valueProp formValue, value := some b.path.text } ∈ attrs
  change : ∃ hs, b.handler isComponent formValue ∈ hs ∧
    { name := (b.handler isComponent formValue).prop, value := some (Handler.merge hs) } ∈ attrs

/-- Each half by itself is converted, with whatever has been gathered before. -/
structure HalvesSettle (env : TemplateEnv) (s : Scope) (b : TwoWay) (isComponent : Bool) (formValue : Option String) :
    Prop where
  value : ∀ e, Converting.Settles (addAttribute env s isComponent formValue [] e b.valueHalf)
    (.ok { e with bag := e.bag.addAttr (b.valueProp formValue) b.path.text })
  change : ∀ e, Converting.Settles (addAttribute env s isComponent formValue [] e b.changeHalf)
    (.ok { e with bag := e.bag.addHandler (some (b.handler isComponent formValue)) })

/-- Each half is converted in no other way, with whatever has been gathered before. -/
structure HalvesGive (env : TemplateEnv) (s : Scope) (b : TwoWay) (isComponent : Bool) (formValue : Option String) :
    Prop where
  value : ∀ e e', Converting.Gives (addAttribute env s isComponent formValue [] e b.valueHalf) e' →
    e' = { e with bag := e.bag.addAttr (b.valueProp formValue) b.path.text }
  change : ∀ e e', Converting.Gives (addAttribute env s isComponent formValue [] e b.changeHalf) e' →
    e' = { e with bag := e.bag.addHandler (some (b.handler isComponent formValue)) }

section Halves

variable (plain : b.IsPlain) (state : b.path.IsState env.names) (free : s.locals.get? b.path.cell = none)
  (form : IsFormValue formValue)

include state free form

/-- In the scope of the half for changes, the event stands for the new value. -/
theorem codeOf_change : ∃ source,
    (b.changeScope s formValue).codeOf env b.path.assignment = Recast.result env.names source ∧
      Recast.text env.names source = b.path.update (newValue (b.control? formValue)) := by
  refine state.codeOf_assignment ?_ ?_ (form.control b).newValue
  · rw [changeScope, Table.get?_set, if_neg b.path.cell_ne, free]
  · rw [changeScope, Table.get?_set, if_pos rfl]

include plain

variable (bound : b.name = "ngModel" ∨ isComponent = true)

include bound

theorem halvesGive : HalvesGive env s b isComponent formValue where
  value e e' given := by
    obtain ⟨source, codes, read⟩ := state.codeOf free
    obtain ⟨code, found, same⟩ := ok_of_bind ((valueHalf_settles plain bound form e).gives given)
    rw [← Except.ok.inj same, ← read, Recast.eq_of_result (codes ▸ found)]
  change e e' given := by
    obtain ⟨source, codes, written⟩ := codeOf_change state free form
    obtain ⟨code, found, same⟩ := ok_of_bind ((changeHalf_settles plain form e).gives given)
    rw [← Except.ok.inj same, handler, ← written, Recast.eq_of_result (codes ▸ found)]

/-- Where no name has an escape, no replacement is refused. -/
theorem halvesSettle (unescaped : env.names.Unescaped) : HalvesSettle env s b isComponent formValue where
  value e := by
    obtain ⟨source, codes, read⟩ := state.codeOf free
    have settled := @valueHalf_settles env s _ _ _ plain bound form e
    rw [codes, unescaped.result, read] at settled
    exact settled
  change e := by
    obtain ⟨source, codes, written⟩ := codeOf_change state free form
    have settled := @changeHalf_settles env s isComponent _ _ plain form e
    rw [codes, unescaped.result, written] at settled
    exact settled

end Halves

/-- What the halves have added stays to the end of the start tag. -/
theorem HalvesGive.startTag {tag : String} {attributes : List Attribute} {component : Option String}
    {start : StartTag} (halves : [b.valueHalf, b.changeHalf] <:+: attributes)
    (undirected : directiveUses env.index 0 [] attributes = .ok [])
    (give : HalvesGive env s b (isGenerated env.index component) (controlValue env.index component tag attributes))
    (given : Converting.Gives (startTag env s tag attributes component) start) {attrs : List MarkupAttr}
    (finished : Converting.Gives (start.bag.finish start.activeClass) attrs) :
    b.Carries (isGenerated env.index component) (controlValue env.index component tag attributes) attrs := by
  obtain ⟨e, gathered, grown⟩ := startTag_gathered undirected given
  generalize controlValue env.index component tag attributes = formValue at give gathered ⊢
  obtain ⟨front, back, rfl⟩ := halves
  rw [List.append_assoc, List.foldlM_append] at gathered
  obtain ⟨e₁, -, gathered⟩ := gathered.bind
  rw [List.cons_append, List.foldlM_cons] at gathered
  obtain ⟨e₂, first, gathered⟩ := gathered.bind
  rw [List.cons_append, List.foldlM_cons] at gathered
  obtain ⟨e₃, second, gathered⟩ := gathered.bind
  -- here the property and the handler are added
  obtain rfl := give.value e₁ _ first
  obtain rfl := give.change _ _ second
  have kept := (addAttributes_grows gathered).trans grown
  obtain ⟨properties, events⟩ := PropBag.finish_holds finished
  refine ⟨properties (kept.attrs (by simp [PropBag.addHandler, PropBag.addAttr])), ?_⟩
  obtain ⟨more, found⟩ := kept.handlers (b.handler _ _).prop _ (by
    rw [PropBag.addHandler, Table.get?_set, if_pos rfl])
  exact ⟨_, by simp, events _ _ found⟩

/-! ### Components -/

theorem get?_setters {cells : List StateCell} {t : Table String} {name : String}
    (held : name ∈ cells.map (·.name) ∨ t.get? name = some (Naming.setterName name)) :
    Table.get? (cells.foldl (fun (t : Table String) c => t.set c.name c.setter) t) name =
      some (Naming.setterName name) := by
  induction cells generalizing t with
  | nil => exact held.resolve_left (by simp)
  | cons c cells ih =>
      rw [List.foldl_cons]
      refine ih ?_
      rw [Table.get?_set]
      by_cases same : name = c.name
      · rw [if_pos same, same]
        exact .inr rfl
      · rw [if_neg same]
        refine held.imp_left fun mem => ?_
        rw [List.map_cons, List.mem_cons] at mem
        exact mem.resolve_left same

/-- The state cells have names of fields, in the order of the fields. -/
theorem stateNames_sublist (d : DeclBase) (mutated : List String) :
    (((Model.fieldRoles d mutated).filterMap Model.FieldRole.state?).map (·.name)).Sublist (d.fields.map (·.name)) := by
  have names : List.Forall₂ (· = ·) ((d.fields.filter (Model.isState d mutated)).map (·.name))
      (((Model.fieldRoles d mutated).filterMap Model.FieldRole.state?).map (·.name)) := by
    rw [List.forall₂_map_left_iff, List.forall₂_map_right_iff]
    exact (Model.fits_lists (Model.fieldRoles_fits d mutated)).1.imp fun f c of => of.name.symm
  rw [List.forall₂_eq_eq_eq] at names
  rw [← names]
  exact List.filter_sublist.map _

/-- A state cell that is neither a dependency nor a subject nor a ref is at the front of the path. -/
theorem isState_componentNames {order : NameOrder} {m : ComponentModel} {path : BoundPath}
    (held : path.cell ∈ m.state.map (·.name))
    (apart : ∀ name ∈ m.dependencies.map (·.name) ++ m.subjects ++ m.refs.map (·.name), Foreign path.base name)
    (inner : ∀ key ∈ path.keys.dropLast, key ≠ "this".toList) :
    path.IsState (componentNames order m) where
  cell := get?_setters (.inl held)
  listed := declared_subset_members order m.toModelBase _ _ _ (by simp [held])
  unclaimed := by
    refine ⟨fun d mem => ?_, fun name mem => apart name ?_, fun name mem => apart name ?_⟩
    · obtain ⟨dep, listed, rfl⟩ | none := Table.mem_foldl_set Injected.name id mem
      · exact apart _ (List.mem_append_left _ (List.mem_append_left _ (List.mem_map_of_mem listed)))
      · cases none
    · exact List.mem_append_left _ (List.mem_append_right _ (order.mem_list.mp mem))
    · exact List.mem_append_right _ (order.mem_list.mp mem)
  inner := inner

/-- An element with its halves next to each other is converted with both of them. -/
theorem convertNode_carries {tag : String} {attributes : List Attribute} {children : List Node} {p : Position}
    {closed : Bool} {component : Option String} (halves : [b.valueHalf, b.changeHalf] <:+: attributes)
    (undirected : directiveUses env.index 0 [] attributes = .ok [])
    (give : HalvesGive env s b (isGenerated env.index component) (controlValue env.index component tag attributes))
    {content : ContentOf} {region : Bool} {shown : Option Markup}
    (given : Converting.Gives (convertNode env content s region (.element tag attributes children p closed component))
      shown) :
    ∃ start attrs inside, shown = some (.element start attrs inside) ∧
      b.Carries (isGenerated env.index component) (controlValue env.index component tag attributes) attrs := by
  unfold convertNode at given
  obtain ⟨start, starts, given⟩ := given.bind
  have ends (inside : List Markup)
      (given : Converting.Gives (do
        let attrs ← start.bag.finish start.activeClass
        return some (Markup.element start.tag attrs inside)) shown) :
      ∃ name attrs inside, shown = some (.element name attrs inside) ∧
        b.Carries (isGenerated env.index component) (controlValue env.index component tag attributes) attrs := by
    obtain ⟨attrs, finishes, given⟩ := given.bind
    exact ⟨start.tag, attrs, inside, given.pure, give.startTag halves undirected starts finishes⟩
  split at given
  · obtain ⟨parts, -, given⟩ := given.bind
    exact ends _ given
  · obtain ⟨inside, -, given⟩ := given.bind
    exact ends inside given

/-- A two-way binding of a path of state.  Linking puts a property and an event in its place.  Whatever else is on the
element, the first is converted into a property with the path as its code and the second into a handler with the update
of the path as its only statement, and both are on the converted element.  There is one state cell for the name at
the front of the path. -/
theorem twoWay_converts {index : SymbolIndex} {order : NameOrder} {d : ComponentDecl} {report report' : Sink}
    {m : ComponentModel}
    (built : (Model.buildComponent index d).run.run report = (.ok (.component m), report'))
    (once : (d.fields.map (·.name)).count b.path.cell = 1) (held : b.path.cell ∈ m.state.map (·.name))
    (apart : ∀ name ∈ m.dependencies.map (·.name) ++ m.subjects ++ m.refs.map (·.name), Foreign b.path.base name)
    (inner : ∀ key ∈ b.path.keys.dropLast, key ≠ "this".toList) (plain : b.IsPlain)
    {tag : String} {attributes : List Attribute} {children : List Node} {p : Position} {closed : Bool}
    {before : Option String} (bound : b.whole ∈ attributes) (scope : Model.TemplateScope) :
    (m.state.map (·.name)).count b.path.cell = 1 ∧
      Runs (Model.linkNode index (.element tag attributes children p closed before)) scope fun node _ =>
        ∃ linked children' component, node = .element tag linked children' p closed component ∧
          [b.valueHalf, b.changeHalf] <:+: linked ∧
          ∀ (env : TemplateEnv) (s : Scope), env.index = index → env.names = componentNames order m →
            s.locals.get? b.path.cell = none → directiveUses index 0 [] linked = .ok [] →
            (b.name = "ngModel" ∨ isGenerated index component = true) →
            let isComponent := isGenerated index component
            let formValue := controlValue index component tag linked
            (env.names.Unescaped → HalvesSettle env s b isComponent formValue) ∧
              ∀ content region shown, Converting.Gives (convertNode env content s region node) shown →
                ∃ start attrs inside, shown = some (.element start attrs inside) ∧
                  b.Carries isComponent formValue attrs := by
  constructor
  · obtain ⟨mutated, -, cells, -⟩ :=
      (@Model.buildComponent_sorts index d report).2 (.component m) (by rw [built]) m rfl
    have atMost := (cells ▸ stateNames_sublist d.toDeclBase mutated).count_le b.path.cell
    have atLeast := List.count_pos_iff.mpr held
    omega
  · refine (linkNode_runs bound scope).mono fun node _ => ?_
    rintro ⟨linked, children', component, rfl, halves⟩
    refine ⟨linked, children', component, rfl, halves, ?_⟩
    rintro env s rfl names free undirected valued isComponent formValue
    have state : b.path.IsState env.names := names ▸ isState_componentNames held apart inner
    have form : IsFormValue formValue := isFormValue_of _ component tag linked
    exact ⟨halvesSettle plain state free form valued, fun content region shown given =>
      convertNode_carries halves undirected (halvesGive plain state free form valued) given⟩

/-! ### A class with one element -/

/-- A class that nothing else belongs to, modelled, with an element of its template linked and converted. -/
def converted? (d : ComponentDecl) (element : Node) : Option (ComponentModel × Node × Option Markup) :=
  match (Model.buildComponent {} d).run.run { unit := d.sourcePath } with
  | (.ok (.component m), _) =>
      match ((Model.linkNode {} element).run {}).run.run { unit := d.sourcePath } with
      | (.ok (node, _), _) =>
          (convertNode { index := {}, names := componentNames .written m } (fun _ _ _ => pure none) {} false
            node).value?.map (m, node, ·)
      | _ => none
  | _ => none

theorem converted?_some {d : ComponentDecl} {element node : Node} {m : ComponentModel} {shown : Option Markup}
    (found : converted? d element = some (m, node, shown)) :
    (∃ report, (Model.buildComponent {} d).run.run { unit := d.sourcePath } = (.ok (.component m), report)) ∧
      (∃ scope report, ((Model.linkNode {} element).run {}).run.run { unit := d.sourcePath } =
        (.ok (node, scope), report)) ∧
      Converting.Gives
        (convertNode { index := {}, names := componentNames .written m } (fun _ _ _ => pure none) {} false node)
        shown := by
  unfold converted? at found
  split at found
  · rename_i m' report built
    split at found
    · rename_i node' scope report' linked
      obtain ⟨shown', made, same⟩ := Option.map_eq_some_iff.mp found
      cases same
      exact ⟨⟨report, built⟩, ⟨scope, report', linked⟩, Converting.gives_of_value? made⟩
    · cases found
  · cases found

def inputOver (b : TwoWay) : Node :=
  .element "input" [b.whole] [] {} true none

/-- The name of a user. -/
def userName : TwoWay where
  name := "ngModel"
  path :=
    { base := "user".toList
      keys := ["name".toList]
      identifier := ⟨by decide, by decide⟩
      identifiers := fun key mem => by
        obtain rfl := List.mem_singleton.mp mem
        exact ⟨by decide, by decide⟩
      refers := by decide }
  position := {}

/-- A class with a user whose name is bound to an input. -/
def userForm : ComponentDecl where
  name := "UserForm"
  sourcePath := "user-form.ts"
  fields := [{ name := "user", initializer := some "new User()" }]
  templateNodes := [inputOver userName]

/-- The user is the only cell of the class, nothing is injected, and the input is a plain one for its value. -/
def holdsPlainly (m : ComponentModel) (node : Node) : Bool :=
  m.state.map (·.name) == ["user"] &&
    (m.dependencies.map (·.name) ++ m.subjects ++ m.refs.map (·.name)).isEmpty &&
    match node with
    | .element tag linked _ _ _ component =>
        (directiveUses {} 0 [] linked).toOption.any (·.isEmpty) &&
          !isGenerated {} component && controlValue {} component tag linked == some "value"
    | _ => false

/-- The input shows the name of the user, and what is entered is put into the user. -/
theorem twoWay_converts_userName : ∃ m node shown, converted? userForm (inputOver userName) = some (m, node, shown) ∧
    (m.state.map (·.name)).count "user" = 1 ∧
    (∃ start attrs inside, shown = some (.element start attrs inside) ∧ userName.Carries false (some "value") attrs) ∧
    userName.handler false (some "value") =
      ⟨"onChange", "event", ["setUser(\x7b ...user, name: event.target.value \x7d)"], none⟩ := by
  have runs : ((converted? userForm (inputOver userName)).any fun made => holdsPlainly made.1 made.2.1) = true := by
    decide +kernel
  obtain ⟨⟨m, node, shown⟩, found, runs⟩ := Option.any_eq_true _ _ |>.mp runs
  obtain ⟨⟨report, built⟩, ⟨scope, report', linked⟩, made⟩ := converted?_some found
  simp only [holdsPlainly, Bool.and_eq_true, beq_iff_eq, List.isEmpty_iff] at runs
  obtain ⟨⟨cells, alone⟩, parts⟩ := runs
  obtain ⟨once, links⟩ := twoWay_converts (b := userName) built (by decide) (by rw [cells]; decide)
    (by rw [alone]; simp) (by decide) ⟨by decide, by decide, by decide, by decide⟩ (List.mem_singleton.mpr rfl) {}
  obtain ⟨attributes, children, component, rfl, -, convert⟩ :=
    (links { unit := userForm.sourcePath }).2 (node, scope) (congrArg Prod.fst linked)
  simp only [Bool.and_eq_true, Bool.not_eq_true', beq_iff_eq] at parts
  obtain ⟨⟨undirected, element⟩, value⟩ := parts
  have undirected : directiveUses {} 0 [] attributes = .ok [] := by
    cases same : directiveUses {} 0 [] attributes with
    | ok uses =>
        rw [same] at undirected
        rw [List.isEmpty_iff.mp undirected]
    | error fault =>
        rw [same] at undirected
        cases undirected
  obtain ⟨-, carries⟩ :=
    convert { index := {}, names := componentNames .written m } {} rfl rfl rfl undirected (.inl rfl)
  obtain ⟨start, attrs, inside, same, carries⟩ := carries _ _ _ made
  rw [element, value] at carries
  exact ⟨m, _, shown, found, once, ⟨start, attrs, inside, same, carries⟩, by decide⟩

/-- A path with the keyword inside of it. -/
def keywordInside : TwoWay where
  name := "ngModel"
  path :=
    { base := "a".toList
      keys := ["this".toList, "b".toList]
      identifier := ⟨by decide, by decide⟩
      identifiers := fun key mem => by
        rw [List.mem_cons, List.mem_singleton] at mem
        obtain rfl | rfl := mem
        · exact ⟨by decide, by decide⟩
        · exact ⟨by decide, by decide⟩
      refers := by decide }
  position := {}

def keywordForm : ComponentDecl where
  name := "A"
  sourcePath := "a.ts"
  fields := [{ name := "a", initializer := some "new Map()" }]
  templateNodes := [inputOver keywordInside]

/-- The keyword is lost where the path is read. -/
theorem twoWay_drops_keyword :
    keywordInside.path.text = "a.this.b" ∧
      (match (Model.buildComponent {} keywordForm).run.run { unit := "a.ts" } with
      | (.ok (.component m), _) =>
          some (m.state.map (·.name),
            (addAttribute { index := {}, names := componentNames .written m } {} false (some "value") [] {}
              keywordInside.valueHalf).value?.map (·.bag.attrs))
      | _ => none) = some (["a"], some [{ name := "value", value := some "a.b" }]) := by
  decide +kernel

end TwoWay

end ReactMigration
