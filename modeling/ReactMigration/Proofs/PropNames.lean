import ReactMigration.Printing.Modules
import ReactMigration.Proofs.ScopeNames
import ReactMigration.Proofs.TemplateWrites

/-!
The props of a component, as its interface declares them and as its function binds them.

Inputs keep their outer names, outputs become callbacks, and projected content adds `children`.  The
interface spells every name as a legal key.  The pattern of the function writes the names as they
are, so that its keys are legal only if all names are identifiers.
-/

namespace ReactMigration

open ReactMigration.Text

variable {index : SymbolIndex} {order : NameOrder} {ds : List Declaration}

/-! ### Identifiers and keys -/

/-- An identifier or a reserved word. -/
def isIdentifierName (name : String) : Bool :=
  match name.toList with
  | [] => false
  | c :: cs => Script.isIdentifierStart c && (c :: cs).all fun d => Script.isIdentifierPart d && d != '\\'

/-- A name that can be bound. -/
def isBindable (name : String) : Bool :=
  isIdentifierName name && Script.wordKind name == .identifier

/-- The text is a legal key of an object for the name: the name itself, or a string on one line. -/
def SpellsKey (key name : String) : Prop :=
  key = name ∧ isIdentifierName name = true ∨
    key = quoteText name ∧ ∀ c ∈ name.toList, Script.isLineEnd c = false

theorem isIdentifierName_parts {name : String} (h : isIdentifierName name = true) :
    ∀ c ∈ name.toList, Script.isIdentifierPart c = true ∧ c ≠ '\\' := by
  unfold isIdentifierName at h
  split at h
  · cases h
  · rename_i c cs found
    rw [found]
    rw [Bool.and_eq_true, List.all_eq_true] at h
    intro d mem
    simpa only [Bool.and_eq_true, bne_iff_ne] using h.2 d mem

theorem not_isLineEnd_of_isIdentifierPart {c : Char} (h : Script.isIdentifierPart c = true) :
    Script.isLineEnd c = false := by
  by_contra ends
  have known : c = '\n' ∨ c = '\r' ∨ c = Char.ofNat 0x2028 ∨ c = Char.ofNat 0x2029 := by
    simp only [Script.isLineEnd, Bool.not_eq_false, Bool.or_eq_true, beq_iff_eq, or_assoc] at ends
    refine ends.imp_right (Or.imp_right (Or.imp ?_ ?_)) <;>
    · intro code
      rw [← code, Char.ofNat_toNat]
  have other : ['\n', '\r', Char.ofNat 0x2028, Char.ofNat 0x2029].all
      (fun c => !Script.isIdentifierPart c) = true := by
    decide +kernel
  have none := List.all_eq_true.mp other c (by simpa using known)
  rw [h] at none
  cases none

/-- An identifier is spelled as itself or as a string. -/
theorem objectKey_spells {name : String} (h : isIdentifierName name = true) :
    SpellsKey (objectKey name) name := by
  unfold objectKey
  split
  · exact .inl ⟨rfl, h⟩
  · exact .inr ⟨rfl, fun c mem => not_isLineEnd_of_isIdentifierPart (isIdentifierName_parts h c mem).1⟩

theorem length_replaceAll (old new s : String) (longer : old.toList.length ≤ new.toList.length) :
    s.toList.length ≤ (replaceAll old new s).toList.length := by
  have within (fuel : Nat) (cs : List Char) :
      cs.length ≤ (replaceWithin old.toList new.toList fuel cs).length := by
    induction fuel generalizing cs with
    | zero => simp [replaceWithin]
    | succ fuel ih =>
        cases cs with
        | nil => simp
        | cons c cs =>
            rw [replaceWithin]
            split
            · rename_i rest found
              have same := congrArg List.length (dropLead?_eq_some_iff.mp found)
              have := ih rest
              simp only [List.length_append] at same ⊢
              omega
            · simpa using ih cs
  rw [replaceAll, String.toList_ofList]
  exact within _ _

theorem quoteText_ne (name : String) : quoteText name ≠ name := by
  intro same
  have lengths := congrArg (·.toList.length) same
  have inner := length_replaceAll "\\" "\\\\" name (by decide)
  have outer := length_replaceAll "'" "\\'" (replaceAll "\\" "\\\\" name) (by decide)
  simp only [quoteText, String.toList_append, List.length_append] at lengths
  have one : "'".toList.length = 1 := rfl
  omega

/-- A name that is written as it is makes a legal key exactly if it is an identifier. -/
theorem spellsKey_self (name : String) : SpellsKey name name ↔ isIdentifierName name = true := by
  constructor
  · rintro (⟨-, h⟩ | ⟨same, -⟩)
    · exact h
    · exact absurd same.symm (quoteText_ne name)
  · exact fun h => .inl ⟨rfl, h⟩

/-! ### Content that is projected -/

namespace Model

open ReactMigration.Template

mutual

/-- Whether a node or what it holds is a place for projected content. -/
def hasSlot : Node → Bool
  | .element _ _ children _ _ _ => hasSlots children
  | .container kind _ children _ => kind == "ng-content" || hasSlots children
  | .structural _ _ _ child _ _ => hasSlot child
  | .interpolation .. => false
  | .text .. => false

/-- Whether nodes or what they hold are places for projected content. -/
def hasSlots : List Node → Bool
  | [] => false
  | n :: ns => hasSlot n || hasSlots ns

end

/-- The work notes projected content exactly if there is a place for it, or if it has been noted
before. -/
def Notes {α : Type} (slot : Bool) (m : Linking α) : Prop :=
  ∀ s, Runs m s fun _ s' => s'.projectsContent = (s.projectsContent || slot)

namespace Notes

variable {α β : Type} {slot slot' : Bool} {m : Linking α}

theorem pure (a : α) : Notes false (Pure.pure a : Linking α) :=
  fun _ => .pure (Bool.or_false _).symm

theorem bind {f : α → Linking β} (hm : Notes slot m) (hf : ∀ a, Notes slot' (f a)) :
    Notes (slot || slot') (m >>= f) := by
  intro s
  refine (hm s).bind fun a s₁ first => (hf a s₁).mono fun _ s₂ second => ?_
  rw [second, first, Bool.or_assoc]

theorem bind_pure {f : α → β} (hm : Notes slot m) : Notes slot (m >>= fun a => Pure.pure (f a)) := by
  simpa using hm.bind fun a => pure (f a)

theorem lifted {x : Noting α} (h : x.Ensures fun _ => True) : Notes false (liftM x : Linking α) :=
  fun _ => .lifted (h.mono fun _ _ => (Bool.or_false _).symm)

theorem modify {f : TemplateScope → TemplateScope}
    (kept : ∀ s, (f s).projectsContent = s.projectsContent) :
    Notes false (modify f : Linking PUnit) :=
  fun s => .modify ((kept s).trans (Bool.or_false _).symm)

theorem mapM {f : α → Linking β} (h : ∀ a, Notes false (f a)) :
    ∀ {l : List α}, Notes false (l.mapM f)
  | [] => by
      rw [List.mapM_nil]
      exact pure []
  | a :: l => by
      rw [List.mapM_cons]
      exact (h a).bind fun b => (mapM h).bind_pure

theorem forM {f : α → Linking PUnit} (h : ∀ a, Notes false (f a)) :
    ∀ {l : List α}, Notes false (l.forM f)
  | [] => pure PUnit.unit
  | a :: _ => (h a).bind fun _ => forM h

theorem forIn {f : α → PUnit → Linking (ForInStep PUnit)} (h : ∀ a u, Notes false (f a u)) :
    ∀ {l : List α}, Notes false (forIn l ⟨⟩ f)
  | [] => by
      rw [List.forIn_nil]
      exact pure _
  | a :: l => by
      rw [List.forIn_cons]
      refine (h a ⟨⟩).bind fun next => ?_
      cases next with
      | done u => exact pure u
      | yield u => exact forIn h

end Notes

theorem noteMutation_notes (expression : String) : Notes false (noteMutation expression) := by
  unfold noteMutation
  split
  · refine .modify fun s => ?_
    split <;> rfl
  · exact .pure _

theorem linkAttribute_notes (a : Attribute) : Notes false (linkAttribute index a) := by
  unfold linkAttribute
  cases a with
  | twoWay name expression p => exact (noteMutation_notes expression).bind_pure
  | static name value p =>
      dsimp only
      split <;> exact .pure _
  | property name expression value p twoWay =>
      dsimp only
      split
      · exact .pure _
      · exact (Notes.lifted (checkPipes_ensures value p)).bind fun _ => .pure _
  | event name handler p twoWay =>
      refine Notes.bind_pure (.forIn fun statement _ => ?_)
      refine (Notes.lifted (.lift fun _ _ => trivial)).bind fun found => ?_
      split
      · exact (noteMutation_notes _).bind_pure
      · exact .pure _
  | directive name expression value p bound resolved =>
      dsimp only
      split
      · exact (Notes.lifted (checkPipes_ensures _ p)).bind fun _ => .pure _
      · exact (Notes.pure _).bind fun _ => .pure _
  | reference name value p => exact .pure _

theorem linkAttributes_notes (attributes : List Attribute) :
    Notes false (linkAttributes index attributes) :=
  (Notes.mapM linkAttribute_notes).bind_pure

theorem registerRefs_notes (node : Node) (attributes : List Attribute) (kind : ReferenceKind) :
    Notes false (registerRefs node attributes kind) := by
  refine .forM fun a => ?_
  cases a with
  | reference name value p =>
      intro s
      refine .get_bind ?_
      dsimp only
      split
      · exact .lifted_bind (.warnAt _ _ _ _) fun _ _ => .modify (Bool.or_false _).symm
      · exact .modify (Bool.or_false _).symm
  | _ => exact .pure _

mutual

theorem linkNode_notes : ∀ n, Notes (hasSlot n) (linkNode index n)
  | .element tag attributes children p selfClosing _ => by
      unfold linkNode
      rw [hasSlot, ← Bool.false_or (hasSlots children)]
      refine (Notes.lifted (componentFor_notes tag p)).bind fun component => ?_
      rw [← Bool.false_or (hasSlots children)]
      refine (linkAttributes_notes attributes).bind fun attributes => ?_
      rw [← Bool.or_false (hasSlots children)]
      refine (linkNodes_notes children).bind fun children => ?_
      exact (registerRefs_notes _ _ _).bind_pure
  | .container kind attributes children p => by
      unfold linkNode
      rw [hasSlot]
      have inner : Notes (hasSlots children) (do
          let attributes ← linkAttributes index attributes
          let children ← linkNodes index children
          let node := Node.container kind attributes children p
          registerRefs node attributes (if kind == "ng-template" then .template else .element)
          return node) := by
        rw [← Bool.false_or (hasSlots children)]
        refine (linkAttributes_notes attributes).bind fun attributes => ?_
        rw [← Bool.or_false (hasSlots children)]
        refine (linkNodes_notes children).bind fun children => ?_
        exact (registerRefs_notes _ _ _).bind_pure
      dsimp only
      split
      · rename_i content
        have counted : Notes true
            (modify fun s : TemplateScope => { s with projectsContent := true } : Linking PUnit) :=
          fun s => .modify (Bool.or_true _).symm
        rw [content]
        exact counted.bind fun _ => inner
      · rename_i other
        rw [Bool.not_eq_true] at other
        rw [other, Bool.false_or]
        exact inner
  | .structural name expression clauses child p _ => by
      unfold linkNode
      rw [hasSlot]
      have inner (directive : Option String) : Notes (hasSlot child) (do
          checkPipes index (parseBoundValue clauses.expression (some p)) p
          return .structural name expression clauses (← linkNode index child) p directive : Linking Node) := by
        rw [← Bool.false_or (hasSlot child)]
        exact (Notes.lifted (checkPipes_ensures _ p)).bind fun _ => (linkNode_notes child).bind_pure
      have remarked (directive : Option String) {x : Noting PUnit} (h : x.Ensures fun _ => True) :
          Notes (hasSlot child) (do
            liftM x
            checkPipes index (parseBoundValue clauses.expression (some p)) p
            return .structural name expression clauses (← linkNode index child) p directive : Linking Node) := by
        rw [← Bool.false_or (hasSlot child)]
        exact (Notes.lifted h).bind fun _ => inner directive
      dsimp only
      split <;> split
      · exact remarked _ (.warnAt _ _ _ _)
      · exact inner _
      · exact remarked _ (.warnAt _ _ _ _)
      · exact inner _
  | .interpolation expression value p => by
      unfold linkNode
      exact (Notes.lifted (checkPipes_ensures value p)).bind_pure
  | .text t p => by
      unfold linkNode
      exact .pure _

/-- Linking notes projected content exactly if the template has a place for it. -/
theorem linkNodes_notes : ∀ ns, Notes (hasSlots ns) (linkNodes index ns)
  | [] => by
      unfold linkNodes
      exact .pure _
  | n :: ns => by
      unfold linkNodes
      rw [hasSlots]
      exact (linkNode_notes n).bind fun _ => (linkNodes_notes ns).bind_pure

end


end Model

/-- Whether a component projects content; a template that cannot be read does not. -/
def ComponentDecl.projects (d : ComponentDecl) : Bool :=
  d.templateError.isNone && Model.hasSlots d.templateNodes

namespace Model

theorem buildComponent_projects (d : ComponentDecl) :
    (buildComponent index d).Ensures fun u => ∀ m, u = .component m →
      m.projectsContent = d.projects := by
  unfold buildComponent
  refine (Noting.Ensures.forM fun path _ => .warn _ _).bind fun _ _ => ?_
  split
  · exact (Noting.Ensures.warn _ _).bind fun _ _ => .pure fun _ isStub => by cases isStub
  · extract_lets start rest
    have built (nodes : List Template.Node) (scope : TemplateScope)
        (noted : scope.projectsContent = d.projects) :
        (rest (nodes, scope)).Ensures fun u => ∀ m, u = .component m →
          m.projectsContent = d.projects := by
      refine (resolveDependencies_notes index d.toDeclBase).bind fun deps _ => ?_
      refine (collectMethods_ensures _ _ _).bind fun base _ => ?_
      refine (lifecycleEffects_ensures _ _).bind fun effects _ => .pure fun m same => ?_
      cases same
      exact noted
    split
    · rename_i f failed
      refine Noting.Ensures.bind (.modify ?_) fun _ _ => ?_
      · exact fun s => s.continues_record _
      · exact built [] {} (by simp [ComponentDecl.projects, failed])
    · rename_i parsed
      refine Noting.Ensures.bind (linkNodes_notes d.templateNodes {}) fun r noted => ?_
      exact built r.1 r.2 (by rw [noted, ComponentDecl.projects, parsed]; rfl)

end Model

/-! ### Props -/

/-- The names of the props: inputs from outside, callbacks of outputs, and projected content. -/
def ComponentDecl.propNames (d : ComponentDecl) : List String :=
  d.inputs.map (·.publicName) ++ d.outputs.map (fun o => Naming.callbackPropName o.publicName) ++
    if d.projects then ["children"] else []

theorem componentProps_names {decl : ComponentDecl} {m : ComponentModel}
    (of : Model.ComponentOf index decl m)
    (projects : m.projectsContent = decl.projects) :
    (componentProps m).map (·.name) = decl.propNames := by
  rw [componentProps, of.inputs, of.outputs, projects, ComponentDecl.propNames, List.map_append,
    List.map_append, List.map_map, List.map_map]
  cases decl.projects <;> rfl

/-! ### Keys and variables -/

theorem wordKind_eq_identifier_iff (name : String) :
    Script.wordKind name = .identifier ↔ name ∉ Script.keywords ++ ["null", "true", "false"] := by
  unfold Script.wordKind
  split
  · rename_i keyword
    simp_all
  · split
    · simp_all
    · split <;> simp_all

/-- A callback is no reserved word. -/
theorem isBindable_callback (output : String) :
    isBindable (Naming.callbackPropName output) = isIdentifierName (Naming.callbackPropName output) := by
  have other : (Script.keywords ++ ["null", "true", "false"]).all
      (fun word => word.toList.take 2 ≠ ['o', 'n']) = true := by
    decide
  have free : Script.wordKind (Naming.callbackPropName output) = .identifier := by
    rw [wordKind_eq_identifier_iff]
    intro mem
    have start := List.all_eq_true.mp other _ mem
    simp [Naming.callbackPropName] at start
  rw [isBindable, free]
  simp

theorem callbackPropName_inj {a b : String} :
    Naming.callbackPropName a = Naming.callbackPropName b ↔ upperFirst a = upperFirst b := by
  refine ⟨fun same => ?_, fun same => by rw [Naming.callbackPropName, same]; rfl⟩
  have letters := congrArg String.toList same
  simp only [Naming.callbackPropName, String.toList_append] at letters
  exact String.toList_inj.mp (List.append_cancel_left letters)

theorem callbackPropName_ne_children (output : String) :
    Naming.callbackPropName output ≠ "children" := by
  intro same
  have letters := congrArg (·.toList.take 2) same
  simp [Naming.callbackPropName] at letters

/-- The props of a component can be declared and bound: their names are different, the interface and
the pattern spell them as legal keys, and each is bound to a variable. -/
structure ComponentArtifact.BindsProps (c : ComponentArtifact) : Prop where
  distinct : (c.props.map (·.name)).Nodup
  declared : ∀ p ∈ c.props, SpellsKey (objectKey p.name) p.name
  taken : ∀ p ∈ c.props, SpellsKey p.name p.name
  bound : ∀ p ∈ c.props, isBindable p.boundName = true

/-- The props of a class have names that can be told apart and bound: no two outputs differ only in
the case of their first letter, no input is called as a callback or as projected content, all names
are identifiers, and no input bears a reserved word. -/
structure ComponentDecl.NamesProps (d : ComponentDecl) : Prop where
  outputs : (d.outputs.map (upperFirst ·.publicName)).Nodup
  callbacks : ∀ i ∈ d.inputs, ∀ o ∈ d.outputs, i.publicName ≠ Naming.callbackPropName o.publicName
  content : d.projects = true → ∀ i ∈ d.inputs, i.publicName ≠ "children"
  identifiers : ∀ name ∈ d.propNames, isIdentifierName name = true
  words : ∀ i ∈ d.inputs, Script.wordKind i.name = .identifier

theorem ComponentDecl.propNames_nodup_iff {d : ComponentDecl}
    (inputs : (d.inputs.map (·.publicName)).Nodup) :
    d.propNames.Nodup ↔ (d.outputs.map (upperFirst ·.publicName)).Nodup ∧
      (∀ i ∈ d.inputs, ∀ o ∈ d.outputs, i.publicName ≠ Naming.callbackPropName o.publicName) ∧
      (d.projects = true → ∀ i ∈ d.inputs, i.publicName ≠ "children") := by
  have callbacks : (d.outputs.map fun o => Naming.callbackPropName o.publicName).Nodup ↔
      (d.outputs.map (upperFirst ·.publicName)).Nodup := by
    simp only [List.Nodup, List.pairwise_map, ne_eq, callbackPropName_inj]
  rw [propNames, List.nodup_append', List.nodup_append', callbacks, and_iff_right inputs, and_assoc]
  refine and_congr_right fun _ => and_congr ?_ ?_
  · simp only [List.Disjoint, List.mem_map]
    constructor
    · intro apart i hi o ho same
      exact apart ⟨i, hi, same⟩ ⟨o, ho, rfl⟩
    · rintro apart _ ⟨i, hi, rfl⟩ ⟨o, ho, same⟩
      exact apart i hi o ho same.symm
  · cases d.projects with
    | false => simp
    | true =>
        have outputs : "children" ∉ d.outputs.map fun o => Naming.callbackPropName o.publicName := by
          simp [callbackPropName_ne_children]
        simp only [if_true, List.disjoint_singleton, List.mem_append, outputs, or_false,
          List.nodup_singleton, true_and, true_implies]
        simp

namespace Printing

/-- The line of a field in an interface. -/
def memberLine (f : PropField) : String :=
  "  " ++ objectKey f.name ++ (if f.optional then "?" else "") ++ ": " ++ f.type ++ ";"

/-- The part of a field in a pattern. -/
def patternPart (f : PropField) : String :=
  f.name ++ (if present f.binding then ": " ++ f.binding.getD "" else "") ++
    ((f.default.map (" = " ++ ·)).getD "")

variable {fields : List PropField}

theorem interface_eq (name : String) (some : fields ≠ []) : interface name fields false =
    unlines (("export interface " ++ name ++ " \x7b") :: fields.map memberLine ++ ["\x7d"]) := by
  have head : s!"export interface {name} " ++ "\x7b" = "export interface " ++ name ++ " \x7b" := by
    rw [toString, instToStringString, String.append_assoc]
    rfl
  unfold interface
  rw [if_neg (by simpa using some), head]
  rfl

theorem destructure_eq (some : fields ≠ []) :
    destructure fields none = listed (fields.map patternPart) := by
  have parts : destructure fields none =
      if (fields.map patternPart ++ []).isEmpty then "\x7b\x7d"
      else listed (fields.map patternPart ++ []) := rfl
  rw [parts, List.append_nil]
  exact if_neg (by simpa using some)

/-- The interface has one line for each prop, and the pattern of the function one part. -/
def LaysProps (c : ComponentArtifact) : Prop :=
  ∃ inner, componentBody c = sections
    (unlines (("export interface " ++ propsName c ++ " \x7b") :: c.props.map memberLine ++ ["\x7d"]) ::
      c.moduleConstants.map (constText "const") ++
      [block ("export default function " ++ c.name ++ "(" ++
        (listed (c.props.map patternPart) ++ ": " ++ propsName c) ++ ")") inner])

theorem componentBody_laysProps {c : ComponentArtifact} (whole : c.destructures = true)
    (some : c.props ≠ []) : LaysProps c := by
  have nonempty : c.props.isEmpty = false := by simpa using some
  rw [ComponentArtifact.destructures, Bool.not_eq_true'] at whole
  unfold LaysProps componentBody
  simp only [nonempty, whole, destructure_eq some, interface_eq _ some, Bool.false_eq_true, if_false]
  exact ⟨_, rfl⟩

end Printing

section

variable {decl : ComponentDecl} {m : ComponentModel} {c : ComponentArtifact}

theorem bindsProps_iff (inputs : (decl.inputs.map (·.publicName)).Nodup)
    (fields : ∀ i ∈ decl.inputs, isIdentifierName i.name = true)
    (of : Model.ComponentOf index decl m) (projects : m.projectsContent = decl.projects)
    (props : c.props = componentProps m) : c.BindsProps ↔ decl.NamesProps := by
  have names : c.props.map (·.name) = decl.propNames := by
    rw [props, componentProps_names of projects]
  have named (P : String → Prop) : (∀ p ∈ c.props, P p.name) ↔ ∀ name ∈ decl.propNames, P name := by
    rw [← names, List.forall_mem_map]
  have bound (identifiers : ∀ name ∈ decl.propNames, isIdentifierName name = true) :
      (∀ p ∈ c.props, isBindable p.boundName = true) ↔
        ∀ i ∈ decl.inputs, Script.wordKind i.name = .identifier := by
    have inputs (i : InputProp) (mem : i ∈ decl.inputs) :
        isBindable (inputProp i).boundName = true ↔ Script.wordKind i.name = .identifier := by
      have named : i.name ≠ "" := fun none => by simpa [none, isIdentifierName] using fields i mem
      rw [inputProp_boundName named, isBindable, fields i mem, Bool.true_and, beq_iff_eq]
    have outputs (texts : List String) (o : OutputProp) (mem : o ∈ decl.outputs) :
        isBindable (outputProp texts o).boundName = true := by
      have callback : (outputProp texts o).boundName = Naming.callbackPropName o.publicName := rfl
      rw [callback, isBindable_callback]
      exact identifiers _ (by simpa [ComponentDecl.propNames] using .inr (.inl ⟨o, mem, rfl⟩))
    rw [props, componentProps, of.inputs, of.outputs]
    constructor
    · intro all i mem
      exact (inputs i mem).mp (all _ (by simpa using .inl ⟨i, mem, rfl⟩))
    · intro words p mem
      rcases List.mem_append.mp mem with mem | content
      · rcases List.mem_append.mp mem with input | output
        · obtain ⟨i, hi, rfl⟩ := List.mem_map.mp input
          exact (inputs i hi).mpr (words i hi)
        · obtain ⟨o, ho, rfl⟩ := List.mem_map.mp output
          exact outputs _ o ho
      · split at content
        · rw [List.mem_singleton.mp content]
          decide
        · cases content
  constructor
  · intro binds
    have identifiers := (named (isIdentifierName · = true)).mp fun p mem => (spellsKey_self p.name).mp (binds.taken p mem)
    obtain ⟨outputs, callbacks, content⟩ :=
      (ComponentDecl.propNames_nodup_iff inputs).mp (names ▸ binds.distinct)
    exact ⟨outputs, callbacks, content, identifiers, (bound identifiers).mp binds.bound⟩
  · intro ok
    refine ⟨?_, ?_, ?_, (bound ok.identifiers).mpr ok.words⟩
    · rw [names, ComponentDecl.propNames_nodup_iff inputs]
      exact ⟨ok.outputs, ok.callbacks, ok.content⟩
    · exact (named _).mpr fun name mem => objectKey_spells (ok.identifiers name mem)
    · exact (named _).mpr fun name mem => (spellsKey_self name).mpr (ok.identifiers name mem)

end

/-- The props of a component are its inputs, its outputs and its projected content, one line of the
interface and one part of the pattern for each.  They can be declared and bound exactly if the names
of the class allow it. -/
theorem component_bindsProps_iff (ds : List Declaration) (units : List String) (w : Work)
    {decl : ComponentDecl} (inputs : (decl.inputs.map (·.publicName)).Nodup)
    (fields : ∀ i ∈ decl.inputs, isIdentifierName i.name = true) {as : List Artifact} {sink : Sink}
    (made : (WorkItem.declaration (.component decl)).modules (SymbolIndex.build ds units) w order =
      .ok (as, sink)) {c : ComponentArtifact} (mem : .component c ∈ as)
    (whole : c.destructures = true) :
    c.props.map (·.name) = decl.propNames ∧ (c.props ≠ [] → Printing.LaysProps c) ∧
      (c.BindsProps ↔ decl.NamesProps) := by
  have known := @Model.buildComponent_projects (SymbolIndex.build ds units) decl
  rcases component_modules_of (SymbolIndex.build_sound ds units).1 known made mem with
    ⟨m, of, projects, writes⟩ | ⟨stub, empty⟩
  · refine ⟨?_, Printing.componentBody_laysProps whole, ?_⟩
    · rw [writes.props, componentProps_names of (projects m rfl)]
    · exact bindsProps_iff inputs fields of (projects m rfl) writes.props
  · simp [ComponentArtifact.destructures, stub, empty] at whole

/-- A unit with a component that has props of every kind. -/
def dialogUnit : Work where
  path := "dialog.ts"
  items := [.declaration (.component
    { name := "Dialog", sourcePath := "dialog.ts"
      inputs := [{ name := "shown", outerName := some "open" }, { name := "title" }]
      outputs := [{ name := "closed" }]
      templateNodes := [.container "ng-content" [] [] {}] })]

theorem component_bindsProps_dialogUnit : ∃ decl c, dialogUnit.Becomes decl c ∧
    c.destructures = true ∧ c.props.map (·.name) = ["open", "title", "onClosed", "children"] ∧
    c.BindsProps := by
  have computed : (dialogUnit.component?.any fun (decl, c) =>
      decide ((decl.inputs.map (·.publicName)).Nodup ∧
        (∀ i ∈ decl.inputs, isIdentifierName i.name = true) ∧ c.destructures = true ∧
        decl.propNames = ["open", "title", "onClosed", "children"] ∧
        (decl.outputs.map (upperFirst ·.publicName)).Nodup ∧
        (∀ i ∈ decl.inputs, ∀ o ∈ decl.outputs,
          i.publicName ≠ Naming.callbackPropName o.publicName) ∧
        (∀ i ∈ decl.inputs, i.publicName ≠ "children") ∧
        (∀ name ∈ decl.propNames, isIdentifierName name = true) ∧
        (∀ i ∈ decl.inputs, Script.wordKind i.name = .identifier))) = true := by
    decide +kernel
  obtain ⟨⟨decl, c⟩, found, facts⟩ := (Option.any_eq_true _ _).mp computed
  obtain ⟨inputs, fields, whole, names, outputs, callbacks, content, identifiers, words⟩ :=
    of_decide_eq_true facts
  obtain ⟨items, as, sink, made, mem⟩ := Work.becomes_of_component? found
  obtain ⟨props, -, binds⟩ := component_bindsProps_iff _ _ dialogUnit inputs fields made mem whole
  exact ⟨decl, c, ⟨items, as, sink, made, mem⟩, whole, props.trans names,
    binds.mpr ⟨outputs, callbacks, fun _ => content, identifiers, words⟩⟩

/-- A component with an input whose outer name is no identifier. -/
def labelUnit : Work :=
  Work.prepare [] "a.ts" (some ("@Component(\x7btemplate: ''\x7d) class A \x7b " ++
    "@Input('aria-label') label = ''; \x7d"))

/-- The interface spells the name as a legal key, and the pattern does not. -/
theorem key_unquoted_labelUnit : ∃ decl c, labelUnit.Becomes decl c ∧
    (decl.inputs.map (·.publicName)).Nodup ∧ (decl.outputs.map (·.publicName)).Nodup ∧
    (∀ i ∈ decl.inputs, isIdentifierName i.name = true) ∧ c.destructures = true ∧
    c.props.map (fun p => (objectKey p.name, Printing.patternPart p)) =
      [("'aria-label'", "aria-label: label = ''")] ∧ ¬ c.BindsProps := by
  have computed : (labelUnit.component?.any fun (decl, c) =>
      decide ((decl.inputs.map (·.publicName)).Nodup ∧ (decl.outputs.map (·.publicName)).Nodup ∧
        (∀ i ∈ decl.inputs, isIdentifierName i.name = true) ∧ c.destructures = true ∧
        c.props.map (fun p => (objectKey p.name, Printing.patternPart p)) =
          [("'aria-label'", "aria-label: label = ''")] ∧
        c.props.any (fun p => !isIdentifierName p.name) = true)) = true := by
    have read : labelUnit = _ := Work.prepare_chars _ _ (toList_ofList_append _ _)
    rw [read]
    decide +kernel
  obtain ⟨⟨decl, c⟩, found, facts⟩ := (Option.any_eq_true _ _).mp computed
  obtain ⟨inputs, outputs, fields, whole, texts, other⟩ := of_decide_eq_true facts
  refine ⟨decl, c, Work.becomes_of_component? found, inputs, outputs, fields, whole, texts, ?_⟩
  intro binds
  obtain ⟨p, mem, no⟩ := List.any_eq_true.mp other
  rw [(spellsKey_self p.name).mp (binds.taken p mem)] at no
  cases no

end ReactMigration
