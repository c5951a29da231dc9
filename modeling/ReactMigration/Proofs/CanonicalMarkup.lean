import ReactMigration.Proofs.MarkupGrammar

/-!
The canonical markup of a tree.

Trees in canonical form are those that can be written down so that the reader finds every node again.
Their markup has one spelling: a structural directive stands first in its start tag, values stand in
double quotes, bindings in brackets, and an element ends with its end tag unless it has no content.
-/

namespace ReactMigration.Text

theorem startsWith_eq (s lead : String) : s.startsWith lead = lead.toList.isPrefixOf s.toList := by
  rw [Bool.eq_iff_iff, String.startsWith_string_iff, List.isPrefixOf_iff_prefix]

theorem endsWith_of_toList {s ending : String} {front : List Char}
    (known : s.toList = front ++ ending.toList) : s.endsWith ending = true := by
  rw [String.endsWith_eq_endsWith_toSlice, String.Slice.endsWith_string_iff, String.copy_toSlice]
  exact ⟨front, known.symm⟩

end ReactMigration.Text

namespace ReactMigration.Template

open ReactMigration.Text

/-! ### Trees without places -/

/-- A bound expression without the places of its pipes. -/
def BoundValue.unplaced : BoundValue → BoundValue
  | .text expression => .text expression
  | .pipe name input args _ => .pipe name input.unplaced args none

/-- An attribute without its place. -/
def Attribute.unplaced : Attribute → Attribute
  | .static name value _ => .static name value {}
  | .property name expression value _ both => .property name expression value.unplaced {} both
  | .event name handler _ both => .event name handler {} both
  | .twoWay name expression _ => .twoWay name expression {}
  | .reference name value _ => .reference name value {}
  | .directive name expression value _ bound resolved =>
      .directive name expression (value.map (·.unplaced)) {} bound resolved

mutual

/-- A node without places. -/
def Node.unplaced : Node → Node
  | .element tag attributes children _ selfClosing component =>
      .element tag (attributes.map (·.unplaced)) (unplaceAll children) {} selfClosing component
  | .text text _ => .text text {}
  | .interpolation expression value _ => .interpolation expression value.unplaced {}
  | .structural name expression clauses child _ directive =>
      .structural name expression clauses child.unplaced {} directive
  | .container kind attributes children _ =>
      .container kind (attributes.map (·.unplaced)) (unplaceAll children) {}

/-- Nodes without places. -/
def unplaceAll : List Node → List Node
  | [] => []
  | n :: ns => n.unplaced :: unplaceAll ns

end

theorem unplaceAll_append (ns ms : List Node) : unplaceAll (ns ++ ms) = unplaceAll ns ++ unplaceAll ms := by
  induction ns with
  | nil => rfl
  | cons n ns ih => simp [unplaceAll, ih]

theorem applyPipes_unplaced (p : Option Position) (segments : List String) (value : BoundValue) :
    (applyPipes p value segments).unplaced = applyPipes none value.unplaced segments := by
  induction segments generalizing value with
  | nil => rfl
  | cons segment segments ih =>
      rw [applyPipes, ih]
      rfl

/-- Where an expression stands does not matter for how it is read. -/
theorem parseBoundValue_unplaced (expression : String) (p : Option Position) :
    (parseBoundValue expression p).unplaced = parseBoundValue expression none := by
  unfold parseBoundValue
  split
  · rfl
  · exact applyPipes_unplaced ..

/-- An attribute as read, without its place. -/
def ReadAttribute.unplaced : ReadAttribute → ReadAttribute
  | .plain a => .plain a.unplaced
  | .structural name value _ => .structural name value {}

/-! ### Markup -/

/-- The name and the value that an attribute is written with. -/
def Attribute.written : Attribute → String × Option String
  | .static name value _ => (name, value)
  | .property name expression _ _ _ => ("[" ++ name ++ "]", some expression)
  | .event name handler _ _ => ("(" ++ name ++ ")", some handler)
  | .twoWay name expression _ => ("[(" ++ name ++ ")]", some expression)
  | .reference name value _ => ("#" ++ name, value)
  | .directive name expression _ _ _ _ => (name, expression)

def ReadAttribute.written : ReadAttribute → String × Option String
  | .plain a => a.written
  | .structural name value _ => ("*" ++ name, if value == "" then none else some value)

/-- A value in double quotes. -/
def valueSource : Option String → List Char
  | none => []
  | some value => '=' :: '"' :: (value.toList ++ ['"'])

/-- The markup of an attribute, with the space in front of it. -/
def ReadAttribute.source (a : ReadAttribute) : List Char :=
  ' ' :: (a.written.1.toList ++ valueSource a.written.2)

/-- The markup of an end tag. -/
def endTag (tag : String) : List Char :=
  '<' :: '/' :: (tag.toList ++ ['>'])

/-- The markup of an element around its content. -/
def elementSource (tag : String) (inside : List ReadAttribute) (selfClosing : Bool)
    (content : List Char) : List Char :=
  '<' :: (tag.toList ++ (inside.flatMap (·.source) ++ (closeTag selfClosing ++
    if IsChildless tag selfClosing then [] else content ++ endTag tag)))

mutual

/-- The markup of a node, the attributes in front standing first in its start tag. -/
def Node.source (front : List ReadAttribute) : Node → List Char
  | .element tag attributes children _ selfClosing _ =>
      elementSource tag (front ++ attributes.map .plain) selfClosing (sources children)
  | .text text _ => text.toList
  | .interpolation expression _ _ => openBraces ++ ' ' :: (expression.toList ++ ' ' :: closeBraces)
  | .structural name expression _ child p _ => child.source (front ++ [.structural name expression p])
  | .container kind attributes children _ =>
      elementSource kind (front ++ attributes.map .plain) false (sources children)

/-- The markup of nodes in a row. -/
def sources : List Node → List Char
  | [] => []
  | n :: ns => n.source [] ++ sources ns

end

/-! ### Canonical trees -/

/-- A name that the reader takes for one name, and a value that fits between double quotes. -/
structure IsWritten (name : String) (value : Option String) : Prop where
  named : name ≠ ""
  letters : name.toList.all isAttributeName = true
  closes : ∀ v ∈ value, '"' ∉ v.toList

instance (name : String) (value : Option String) : Decidable (IsWritten name value) :=
  decidable_of_iff
    (name ≠ "" ∧ name.toList.all isAttributeName = true ∧ ∀ v ∈ value, '"' ∉ v.toList)
    ⟨fun h => ⟨h.1, h.2.1, h.2.2⟩, fun h => ⟨h.named, h.letters, h.closes⟩⟩

/-- How the names of bindings, structural directives and references begin and end. -/
def bindingLeads : List String :=
  ["[(", "bindon-", "[", "bind-", "(", "on-", "*", "#", "ref-"]

def bindingEnds : List String :=
  ["]", ")"]

/-- The expression of a binding, written without white space around it. -/
def isBindingText (value : String) : Bool :=
  trim value == value && !isBlankText value && (Script.findUnbalanced value).isNone &&
    !occursIn "</" value

/-- An attribute that is written as no other kind of attribute is. -/
def Attribute.isOwnKind : Attribute → Bool
  | .static name value _ =>
      bindingLeads.all (!name.startsWith ·) && bindingEnds.all (!name.endsWith ·) &&
        !builtinDirectives.contains name && value.all (!occursIn "\x7b\x7b" ·)
  | .property name expression value _ both =>
      name != "" && !name.startsWith "(" && !builtinDirectives.contains name &&
        isBindingText expression && value.unplaced == parseBoundValue expression none && !both
  | .event name handler _ both => name != "" && isBindingText handler && !both
  | .twoWay name expression _ => name != "" && isBindingText expression
  | .reference _ value _ => value.all (· != "")
  | .directive .. => false

/-- A structural directive has a name, and an expression if any. -/
def ReadAttribute.isOwnKind : ReadAttribute → Bool
  | .plain a => a.isOwnKind
  | .structural name value _ => name != "" && (value == "" || isBindingText value)

/-- An attribute that can be written down. -/
def ReadAttribute.isCanonical (a : ReadAttribute) : Bool :=
  decide (IsWritten a.written.1 a.written.2) && a.isOwnKind

def Attribute.isCanonical (a : Attribute) : Bool :=
  (ReadAttribute.plain a).isCanonical

/-- Whether a node is a text. -/
def Node.isText : Node → Bool
  | .text _ _ => true
  | _ => false

/-- Whether a node is an element or a container. -/
def Node.isHost : Node → Bool
  | .element .. => true
  | .container .. => true
  | _ => false

mutual

/-- A node that can be written down. -/
def Node.isCanonical : Node → Bool
  | .element tag attributes children _ selfClosing component =>
      decide (IsTagName tag.toList) && !containerTags.contains tag && attributes.all (·.isCanonical) &&
        areCanonical children && (!decide (IsChildless tag selfClosing) || children.isEmpty) &&
        component.isNone
  | .text text _ =>
      !isBlankText text && collapse text == text && text.toList.all fun c => c != '<' && c != '\x7b'
  | .interpolation expression value _ =>
      expression != "" && trim expression == expression &&
        (expression.toList.all fun c => !Script.isQuote c && c != '\x7b' && c != '\x7d') &&
        value.unplaced == parseBoundValue expression none
  | .structural name expression clauses child p directive =>
      (ReadAttribute.structural name expression p).isCanonical &&
        clauses == parseClauses name expression && child.isHost && child.isCanonical && directive.isNone
  | .container kind attributes children _ =>
      containerTags.contains kind && attributes.all (·.isCanonical) && areCanonical children

/-- Nodes that can be written down one after the other: no two texts are neighbours. -/
def areCanonical : List Node → Bool
  | [] => true
  | n :: ns => n.isCanonical && !(n.isText && ns.head?.any (·.isText)) && areCanonical ns

end

/-! ### What canonical attributes mean -/

section Meaning

variable {c : Cursor} {full name value : String}

theorem checkExpression_of_isBindingText (h : isBindingText value = true) :
    checkExpression name value c = .ok () := by
  simp only [isBindingText, Bool.and_eq_true, Bool.not_eq_true', Option.isNone_iff_eq_none] at h
  obtain ⟨⟨_, balanced⟩, noEnd⟩ := h
  simp [checkExpression, balanced, noEnd]

theorem bindingValue_of_isBindingText (h : isBindingText value = true) :
    bindingValue name (some value) c = .ok value := by
  have checked : checkExpression name value c = .ok () := checkExpression_of_isBindingText h
  simp only [isBindingText, Bool.and_eq_true, Bool.not_eq_true', beq_iff_eq] at h
  obtain ⟨⟨⟨trimmed, visible⟩, _⟩, _⟩ := h
  simp [bindingValue, visible, checked, trimmed, Bind.bind, Except.bind, Pure.pure, Except.pure]

theorem innerName_of_toList {front back : List Char} {n m : Nat}
    (known : full.toList = front ++ (name.toList ++ back)) (first : front.length = n)
    (last : back.length = m) : innerName n m full = name := by
  subst first last
  simp [innerName, known]

theorem length_of_toList {front back : List Char} (named : name ≠ "")
    (known : full.toList = front ++ (name.toList ++ back)) : front.length + back.length < full.length := by
  have : 0 < name.toList.length := by simpa [List.length_pos_iff] using named
  rw [← String.length_toList, known]
  simp only [List.length_append]
  omega

theorem classifyAttribute_twoWay (named : name ≠ "") (h : isBindingText value = true)
    (known : full.toList = ['[', '('] ++ (name.toList ++ [')', ']'])) :
    classifyAttribute full (some value) c = .ok (.plain (.twoWay name value (positionOf c))) := by
  have inner : innerName 2 2 full = name := innerName_of_toList known rfl rfl
  have long : ¬ full.length ≤ 4 := Nat.not_le.mpr (length_of_toList named known)
  have ends : full.endsWith ")]" = true :=
    endsWith_of_toList (show full.toList = (['[', '('] ++ name.toList) ++ ")]".toList by simp [known])
  have lead : full.startsWith "[(" = true := by simp [startsWith_eq, known, List.isPrefixOf]
  simp [classifyAttribute, lead, ends, long, inner, bindingValue_of_isBindingText h,
    Bind.bind, Except.bind, Pure.pure, Except.pure]

theorem classifyAttribute_property (named : name ≠ "") (single : name.startsWith "(" = false)
    (custom : name ∉ builtinDirectives) (h : isBindingText value = true)
    (known : full.toList = ['['] ++ (name.toList ++ [']'])) :
    classifyAttribute full (some value) c = .ok (.plain (.property name value
      (parseBoundValue value (some (positionOf c))) (positionOf c) false)) := by
  have inner : innerName 1 1 full = name := innerName_of_toList known rfl rfl
  have long : ¬ full.length ≤ 2 := Nat.not_le.mpr (length_of_toList named known)
  have ends : full.endsWith "]" = true :=
    endsWith_of_toList (show full.toList = (['['] ++ name.toList) ++ "]".toList by simp [known])
  have noParen : full.startsWith "[(" = false := by
    obtain ⟨a, cs, letters⟩ := List.exists_cons_of_ne_nil (mt String.toList_eq_nil_iff.mp named)
    have other : a ≠ '(' := by
      rintro rfl
      simp [startsWith_eq, letters, List.isPrefixOf] at single
    simp [startsWith_eq, known, letters, List.isPrefixOf, Ne.symm other]
  have noWord : full.startsWith "bindon-" = false := by simp [startsWith_eq, known, List.isPrefixOf]
  have lead : full.startsWith "[" = true := by simp [startsWith_eq, known, List.isPrefixOf]
  simp [classifyAttribute, noParen, noWord, lead, ends, long, inner, custom,
    bindingValue_of_isBindingText h, Bind.bind, Except.bind, Pure.pure, Except.pure]

theorem classifyAttribute_event (named : name ≠ "") (h : isBindingText value = true)
    (known : full.toList = ['('] ++ (name.toList ++ [')'])) :
    classifyAttribute full (some value) c = .ok (.plain (.event name value (positionOf c) false)) := by
  have inner : innerName 1 1 full = name := innerName_of_toList known rfl rfl
  have long : ¬ full.length ≤ 2 := Nat.not_le.mpr (length_of_toList named known)
  have ends : full.endsWith ")" = true :=
    endsWith_of_toList (show full.toList = (['('] ++ name.toList) ++ ")".toList by simp [known])
  have others : full.startsWith "[(" = false ∧ full.startsWith "bindon-" = false ∧
      full.startsWith "[" = false ∧ full.startsWith "bind-" = false := by
    simp [startsWith_eq, known, List.isPrefixOf]
  have lead : full.startsWith "(" = true := by simp [startsWith_eq, known, List.isPrefixOf]
  simp [classifyAttribute, others, lead, ends, long, inner, bindingValue_of_isBindingText h,
    Bind.bind, Except.bind, Pure.pure, Except.pure]

theorem classifyAttribute_structural {value : Option String} (named : name ≠ "")
    (h : ∀ v ∈ value, isBindingText v = true) (known : full.toList = ['*'] ++ (name.toList ++ [])) :
    classifyAttribute full value c = .ok (.structural name (value.getD "") (positionOf c)) := by
  have inner : innerName 1 0 full = name := innerName_of_toList known rfl rfl
  have long : full.length ≠ 1 := Nat.ne_of_gt (length_of_toList named known)
  have others : full.startsWith "[(" = false ∧ full.startsWith "bindon-" = false ∧
      full.startsWith "[" = false ∧ full.startsWith "bind-" = false ∧ full.startsWith "(" = false ∧
      full.startsWith "on-" = false := by
    simp [startsWith_eq, known, List.isPrefixOf]
  have lead : full.startsWith "*" = true := by simp [startsWith_eq, known, List.isPrefixOf]
  cases value with
  | none =>
      simp [classifyAttribute, others, lead, inner, long, Pure.pure, Except.pure]
  | some v =>
      simp [classifyAttribute, others, lead, inner, long, checkExpression_of_isBindingText (h v rfl),
        Bind.bind, Except.bind, Pure.pure, Except.pure]

theorem classifyAttribute_reference {value : Option String} (h : ∀ v ∈ value, v ≠ "")
    (known : full.toList = ['#'] ++ (name.toList ++ [])) :
    classifyAttribute full value c = .ok (.plain (.reference name value (positionOf c))) := by
  have inner : innerName 1 0 full = name := innerName_of_toList known rfl rfl
  have others : full.startsWith "[(" = false ∧ full.startsWith "bindon-" = false ∧
      full.startsWith "[" = false ∧ full.startsWith "bind-" = false ∧ full.startsWith "(" = false ∧
      full.startsWith "on-" = false ∧ full.startsWith "*" = false := by
    simp [startsWith_eq, known, List.isPrefixOf]
  have lead : full.startsWith "#" = true := by simp [startsWith_eq, known, List.isPrefixOf]
  cases value with
  | none =>
      simp [classifyAttribute, others, lead, inner, Pure.pure, Except.pure]
  | some v =>
      simp [classifyAttribute, others, lead, inner, h v rfl, Option.filter, Pure.pure, Except.pure]

theorem classifyAttribute_static {value : Option String}
    (leads : ∀ lead ∈ bindingLeads, name.startsWith lead = false)
    (ends : ∀ ending ∈ bindingEnds, name.endsWith ending = false) (custom : name ∉ builtinDirectives)
    (plain : ∀ v ∈ value, occursIn "\x7b\x7b" v = false) :
    classifyAttribute name value c = .ok (.plain (.static name value (positionOf c))) := by
  simp only [bindingLeads, bindingEnds, List.forall_mem_cons] at leads ends
  cases value with
  | none =>
      simp [classifyAttribute, leads, ends, custom, Pure.pure, Except.pure]
  | some v =>
      simp [classifyAttribute, leads, ends, custom, plain v rfl, Pure.pure, Except.pure]

theorem classifyAttribute_plain {a : Attribute} (own : a.isOwnKind = true) (c : Cursor) :
    ∃ r, classifyAttribute a.written.1 a.written.2 c = .ok r ∧ r.unplaced = .plain a.unplaced := by
  cases a with
  | static name value p =>
      simp only [Attribute.isOwnKind, Bool.and_eq_true, Bool.not_eq_true', List.all_eq_true,
        List.contains_eq_mem, decide_eq_false_iff_not, Option.all_eq_true] at own
      obtain ⟨⟨⟨leads, ends⟩, custom⟩, plain⟩ := own
      exact ⟨_, classifyAttribute_static leads ends custom plain, rfl⟩
  | property name expression value p both =>
      simp only [Attribute.isOwnKind, Bool.and_eq_true, Bool.not_eq_true', bne_iff_ne, beq_iff_eq,
        List.contains_eq_mem, decide_eq_false_iff_not] at own
      obtain ⟨⟨⟨⟨⟨named, single⟩, custom⟩, given⟩, same⟩, rfl⟩ := own
      refine ⟨_, classifyAttribute_property named single custom given (by simp [Attribute.written]), ?_⟩
      simp [ReadAttribute.unplaced, Attribute.unplaced, parseBoundValue_unplaced, same]
  | event name handler p both =>
      simp only [Attribute.isOwnKind, Bool.and_eq_true, Bool.not_eq_true', bne_iff_ne] at own
      obtain ⟨⟨named, given⟩, rfl⟩ := own
      exact ⟨_, classifyAttribute_event named given (by simp [Attribute.written]), rfl⟩
  | twoWay name expression p =>
      simp only [Attribute.isOwnKind, Bool.and_eq_true, bne_iff_ne] at own
      exact ⟨_, classifyAttribute_twoWay own.1 own.2 (by simp [Attribute.written]), rfl⟩
  | reference name value p =>
      simp only [Attribute.isOwnKind, Option.all_eq_true, bne_iff_ne] at own
      exact ⟨_, classifyAttribute_reference own (by simp [Attribute.written]), rfl⟩
  | directive => cases own

/-- A canonical attribute means itself, up to its place. -/
theorem classifyAttribute_written {a : ReadAttribute} (own : a.isOwnKind = true) (c : Cursor) :
    ∃ r, classifyAttribute a.written.1 a.written.2 c = .ok r ∧ r.unplaced = a.unplaced := by
  cases a with
  | plain a => exact classifyAttribute_plain own c
  | structural name value p =>
      simp only [ReadAttribute.isOwnKind, Bool.and_eq_true, Bool.or_eq_true, bne_iff_ne, beq_iff_eq] at own
      obtain ⟨named, given⟩ := own
      refine ⟨_, classifyAttribute_structural named ?_
        (by simp [ReadAttribute.written]), ?_⟩
      · by_cases empty : value = ""
        · simp [ReadAttribute.written, empty]
        · simpa [ReadAttribute.written, empty] using given.resolve_left empty
      · by_cases empty : value = "" <;> simp [ReadAttribute.written, ReadAttribute.unplaced, empty]

end Meaning

/-! ### The parts of a canonical element -/

/-- The attribute, if it is an ordinary one. -/
def ReadAttribute.plain? : ReadAttribute → Option Attribute
  | .plain a => some a
  | .structural .. => none

/-- The structural directive, if it is one. -/
def ReadAttribute.structural? : ReadAttribute → Option (String × String × Position)
  | .plain _ => none
  | .structural name value p => some (name, value, p)

/-- A structural directive as read, without its place. -/
def unplacedDirective (s : String × String × Position) : String × String × Position :=
  (s.1, s.2.1, {})

theorem filterMap_plain? (items : List ReadAttribute) :
    (items.filterMap (·.plain?)).map (·.unplaced) = (items.map (·.unplaced)).filterMap (·.plain?) := by
  rw [List.map_filterMap, List.filterMap_map]
  congr 1
  funext a
  cases a <;> rfl

theorem filterMap_structural? (items : List ReadAttribute) :
    (items.filterMap (·.structural?)).map unplacedDirective =
      (items.map (·.unplaced)).filterMap (·.structural?) := by
  rw [List.map_filterMap, List.filterMap_map]
  congr 1
  funext a
  cases a <;> rfl

/-- A structural directive as an attribute of its element. -/
def directiveOf (s : String × String × Position) : ReadAttribute :=
  .structural s.1 s.2.1 s.2.2

/-- What stands in the start tag of an element, its structural directive first. -/
def startItems (structurals : List (String × String × Position)) (attributes : List Attribute) :
    List ReadAttribute :=
  structurals.map directiveOf ++ attributes.map .plain

theorem startItems_plain? (structurals : List (String × String × Position)) (attributes : List Attribute) :
    (startItems structurals attributes).filterMap (·.plain?) = attributes := by
  simp [startItems, List.filterMap_append, List.filterMap_map, Function.comp_def,
    ReadAttribute.plain?, directiveOf]

theorem startItems_structural? (structurals : List (String × String × Position))
    (attributes : List Attribute) :
    (startItems structurals attributes).filterMap (·.structural?) = structurals := by
  simp [startItems, List.filterMap_append, List.filterMap_map, Function.comp_def,
    ReadAttribute.structural?, directiveOf]

/-- Elements put together from equal parts are equal, up to places. -/
theorem Hosts.unplaced_congr {tag : String} {attributes attributes' : List Attribute} {selfClosing : Bool}
    {children children' : List Node} {structurals structurals' : List (String × String × Position)}
    {n n' : Node} (h : Hosts tag attributes selfClosing children structurals n)
    (h' : Hosts tag attributes' selfClosing children' structurals' n')
    (sameAttributes : attributes.map (·.unplaced) = attributes'.map (·.unplaced))
    (sameChildren : unplaceAll children = unplaceAll children')
    (sameStructurals : structurals.map unplacedDirective = structurals'.map unplacedDirective) :
    n.unplaced = n'.unplaced := by
  induction h generalizing structurals' n' with
  | element p other =>
      cases h' with
      | element => simp [Node.unplaced, sameAttributes, sameChildren]
      | container _ group => exact absurd group other
      | structural => cases sameStructurals
  | container p group =>
      cases h' with
      | element _ other => exact absurd group other
      | container => simp [Node.unplaced, sameAttributes, sameChildren]
      | structural => cases sameStructurals
  | structural inner ih =>
      cases h' with
      | element => cases sameStructurals
      | container => cases sameStructurals
      | structural inner' =>
          simp only [List.map_cons, List.map_nil, unplacedDirective, List.cons.injEq, Prod.mk.injEq]
            at sameStructurals
          obtain ⟨⟨rfl, rfl, -⟩, -⟩ := sameStructurals
          simp [Node.unplaced, ih inner' rfl]

theorem isTagName_of_container : ∀ kind ∈ containerTags, IsTagName kind.toList := by
  decide +kernel

theorem not_isChildless_of_container : ∀ kind ∈ containerTags, ¬ IsChildless kind false := by
  decide +kernel

/-- What a canonical element is put together from. -/
structure IsPutTogether (tag : String) (attributes : List Attribute) (selfClosing : Bool)
    (children : List Node) : Prop where
  named : IsTagName tag.toList
  plain : ∀ a ∈ attributes, a.isCanonical = true
  content : areCanonical children = true
  childless : IsChildless tag selfClosing → children = []

/-- The parts of an element or container. -/
theorem exists_parts_of_isHost {n : Node} (canonical : n.isCanonical = true) (host : n.isHost = true) :
    ∃ tag attributes selfClosing children, IsPutTogether tag attributes selfClosing children ∧
      Hosts tag attributes selfClosing children [] n ∧
      ∀ front, n.source front =
        elementSource tag (front ++ attributes.map .plain) selfClosing (sources children) := by
  cases n with
  | element tag attributes children p selfClosing component =>
      simp only [Node.isCanonical, Bool.and_eq_true, Bool.or_eq_true, Bool.not_eq_true', decide_eq_true_eq,
        decide_eq_false_iff_not, List.all_eq_true, List.contains_eq_mem, Option.isNone_iff_eq_none,
        List.isEmpty_iff] at canonical
      obtain ⟨⟨⟨⟨⟨named, other⟩, attributes⟩, children⟩, childless⟩, rfl⟩ := canonical
      have parts : IsPutTogether .. :=
        ⟨named, attributes, children, fun h => childless.resolve_left (not_not_intro h)⟩
      exact ⟨_, _, _, _, parts, .element p other, fun _ => rfl⟩
  | container kind attributes children p =>
      simp only [Node.isCanonical, Bool.and_eq_true, List.all_eq_true, List.contains_eq_mem,
        decide_eq_true_eq] at canonical
      obtain ⟨⟨group, attributes⟩, children⟩ := canonical
      have parts : IsPutTogether .. :=
        ⟨isTagName_of_container _ group, attributes, children,
          fun h => absurd h (not_isChildless_of_container _ group)⟩
      exact ⟨_, _, _, _, parts, .container p group, fun _ => rfl⟩
  | _ => cases host

/-- The parts of whatever is neither a text nor an interpolation. -/
theorem exists_parts {n : Node} (canonical : n.isCanonical = true) (text : n.isText = false)
    (interpolation : n.isInterpolation = false) :
    ∃ tag attributes selfClosing children structurals,
      IsPutTogether tag attributes selfClosing children ∧
      structurals.length ≤ 1 ∧ (∀ a ∈ startItems structurals attributes, a.isCanonical = true) ∧
      Hosts tag attributes selfClosing children structurals n ∧
      n.source [] = elementSource tag (startItems structurals attributes) selfClosing (sources children) := by
  by_cases host : n.isHost = true
  · obtain ⟨tag, attributes, selfClosing, children, parts, hosts, source⟩ :=
      exists_parts_of_isHost canonical host
    exact ⟨tag, attributes, selfClosing, children, [], parts, by simp,
      by simpa [startItems, Attribute.isCanonical] using parts.plain, hosts, source []⟩
  cases n with
  | text => cases text
  | interpolation => cases interpolation
  | structural name expression clauses child p directive =>
      simp only [Node.isCanonical, Bool.and_eq_true, beq_iff_eq, Option.isNone_iff_eq_none] at canonical
      obtain ⟨⟨⟨⟨own, rfl⟩, inner⟩, canonical⟩, rfl⟩ := canonical
      obtain ⟨tag, attributes, selfClosing, children, parts, hosts, source⟩ :=
        exists_parts_of_isHost canonical inner
      refine ⟨tag, attributes, selfClosing, children, [(name, expression, p)], parts, by simp, ?_,
        .structural hosts, source _⟩
      intro a mem
      obtain first | other := List.mem_append.mp mem
      · rw [List.mem_singleton.mp first]
        exact own
      · obtain ⟨b, given, rfl⟩ := List.mem_map.mp other
        exact parts.plain b given
  | _ => exact absurd rfl host

end ReactMigration.Template
