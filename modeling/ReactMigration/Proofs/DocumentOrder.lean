import ReactMigration.Proofs.TemplateNames

/-!
The order of a template in its markup.

A template that neither switches nor shows other templates is converted in place: its texts, values
and content slots are the leaves of the markup, in document order, and every element stays one element
around what it contains.
-/

namespace ReactMigration

open ReactMigration.Template
open ReactMigration.Text
open Converting (Gives)

variable {env : TemplateEnv}

/-! ### What a template shows -/

/-- What a template shows, nested by elements alone. -/
inductive Template.Content where
  | text (text : String)
  | value (value : BoundValue)
  /-- A place for projected content. -/
  | slot
  | element (tag : String) (attributes : List Attribute) (component : Option String)
      (inside : List Content)
  deriving Inhabited

mutual

/-- What a node shows, in document order; `region` tells that a structural directive governs it, so
that a template stands for its children. -/
def Template.Node.contents (region : Bool) : Node → List Content
  | .text t _ => [.text t]
  | .interpolation _ value _ => [.value value]
  | .element tag attributes children _ _ component =>
      [.element tag attributes component (Template.contents children)]
  | .container kind _ children _ =>
      if kind == "ng-content" then [.slot]
      else if kind == "ng-template" && !region then []
      else Template.contents children
  | .structural _ _ _ child _ _ => child.contents true

/-- What nodes show, in document order. -/
def Template.contents : List Node → List Content
  | [] => []
  | n :: ns => n.contents false ++ Template.contents ns

end

/-- A binding of the value that an element switches over. -/
def Template.Attribute.isSwitch : Attribute → Bool
  | .property name _ _ _ _ => name == "ngSwitch"
  | _ => false

mutual

/-- Nothing in the node is a switch, refers to a template or renders one elsewhere. -/
def Template.Node.isDirect : Node → Bool
  | .text _ _ => true
  | .interpolation _ _ _ => true
  | .element _ attributes children _ _ _ =>
      !attributes.any (·.isSwitch) && Template.areDirect children
  | .container _ attributes children _ => (outletOf? attributes).isNone && Template.areDirect children
  | .structural name _ clauses child _ _ =>
      name != "ngTemplateOutlet" && !present clauses.thenRef && !present clauses.elseRef &&
        child.isDirect

def Template.areDirect : List Node → Bool
  | [] => true
  | n :: ns => n.isDirect && Template.areDirect ns

end

/-! ### Markup in document order -/

/-- The markup shows the contents one by one, in order, with elements around what they contain; an
element has its own converted properties, in a loop behind a key.  A fragment, condition, loop or render
prop shows what stands inside of it, and a `null` shows nothing. -/
inductive Shows (env : TemplateEnv) : List Content → List Markup → Prop
  | nil : Shows env [] []
  | text (t : String) {cs : List Content} {ms : List Markup} (more : Shows env cs ms) :
      Shows env (.text t :: cs) (.text t :: ms)
  | value {s : Scope} {value : BoundValue} {p : Position} {code : String} {cs : List Content}
      {ms : List Markup} (given : Gives (s.boundAt env value p) code) (more : Shows env cs ms) :
      Shows env (.value value :: cs) (.expression code :: ms)
  | slot {cs : List Content} {ms : List Markup} (more : Shows env cs ms) :
      Shows env (.slot :: cs) (.expression "children" :: ms)
  | nothing {cs : List Content} {ms : List Markup} (more : Shows env cs ms) :
      Shows env cs (.nothing :: ms)
  | element {s : Scope} {tag : String} {attributes : List Attribute} {component : Option String}
      {start : StartTag} {finished attrs : List MarkupAttr} {inside cs : List Content}
      {children ms : List Markup}
      (starts : Gives (startTag env s tag attributes component) start)
      (finishes : Gives (start.bag.finish start.activeClass) finished) (keyed : finished <:+ attrs)
      (within : Shows env inside children) (more : Shows env cs ms) :
      Shows env (.element tag attributes component inside :: cs) (.element start.tag attrs children :: ms)
  | fragment {key : Option String} {inside cs : List Content} {children ms : List Markup}
      (within : Shows env inside children) (more : Shows env cs ms) :
      Shows env (inside ++ cs) (.fragment children key :: ms)
  | conditional {condition : String} {inside cs : List Content} {m : Markup} {ms : List Markup}
      (within : Shows env inside [m]) (more : Shows env cs ms) :
      Shows env (inside ++ cs) (.conditional condition m none :: ms)
  | loop {iterable item index : String} {inside cs : List Content} {m : Markup} {ms : List Markup}
      (within : Shows env inside [m]) (more : Shows env cs ms) :
      Shows env (inside ++ cs) (.loop iterable item index m :: ms)
  | renderProp {component : String} {attrs : List MarkupAttr} {params : List String}
      {inside cs : List Content} {m : Markup} {ms : List Markup}
      (within : Shows env inside [m]) (more : Shows env cs ms) :
      Shows env (inside ++ cs) (.renderProp component attrs params m :: ms)

namespace Shows

variable {cs ds : List Content} {m : Markup} {ms ns : List Markup}

theorem append (h : Shows env cs ms) (more : Shows env ds ns) :
    Shows env (cs ++ ds) (ms ++ ns) := by
  induction h with
  | nil => exact more
  | text t _ ih => exact .text t ih
  | value given _ ih => exact .value given ih
  | slot _ ih => exact .slot ih
  | nothing _ ih => exact .nothing ih
  | element starts finishes keyed within _ _ ih => exact .element starts finishes keyed within ih
  | fragment within _ _ ih => simpa using Shows.fragment within ih
  | conditional within _ _ ih => simpa using Shows.conditional within ih
  | loop within _ _ ih => simpa using Shows.loop within ih
  | renderProp within _ _ ih => simpa using Shows.renderProp within ih

theorem ofList (h : Shows env cs ms) : Shows env cs [.ofList ms] := by
  unfold Markup.ofList
  split
  · cases h
    exact .nothing .nil
  · exact h
  · simpa using Shows.fragment h .nil

theorem getD {m : Option Markup} (h : Shows env cs m.toList) : Shows env cs [m.getD .nothing] := by
  cases m with
  | none =>
      cases h
      exact .nothing .nil
  | some m => exact h

/-- A key changes nothing in what the body of a loop shows. -/
theorem withKey {key : String} {keyed : Markup} (h : Shows env cs [m])
    (given : Gives (ReactMigration.withKey m key) keyed) : Shows env cs [keyed] := by
  -- What can carry no key itself is wrapped into a fragment that does.
  have wrapped (given : Gives (do
      Converting.react ["Fragment"]
      return Markup.fragment [m] (some key)) keyed) : Shows env cs [keyed] := by
    obtain ⟨_, _, given⟩ := given.bind
    cases given.pure
    simpa using Shows.fragment h .nil
  unfold ReactMigration.withKey at given
  cases m with
  | element tag attrs children =>
      cases given.pure
      cases h with
      | element starts finishes attached within more =>
          exact .element starts finishes (attached.trans (List.suffix_cons _ _)) within more
  | renderProp component attrs params inner =>
      cases given.pure
      cases h with
      | renderProp within more => exact .renderProp within more
  | fragment children old =>
      obtain ⟨_, _, given⟩ := given.bind
      cases given.pure
      cases h with
      | fragment within more => exact .fragment within more
  | text t => exact wrapped given
  | expression code => exact wrapped given
  | conditional condition shown otherwise => exact wrapped given
  | loop iterable item index body => exact wrapped given
  | remark comment => exact wrapped given

end Shows

/-! ### Leaves -/

mutual

/-- What is shown and contains nothing else, in document order. -/
def Template.Content.leaves : Content → List Content
  | .text t => [.text t]
  | .value v => [.value v]
  | .slot => [.slot]
  | .element _ _ _ inside => Template.leaves inside

def Template.leaves : List Content → List Content
  | [] => []
  | c :: cs => c.leaves ++ Template.leaves cs

end

mutual

/-- The texts and expressions of markup, in document order. -/
def Markup.leaves : Markup → List Markup
  | .element _ _ children => Markup.leavesOf children
  | .text t => [.text t]
  | .expression code => [.expression code]
  | .fragment children _ => Markup.leavesOf children
  | .conditional _ shown none => shown.leaves
  | .conditional _ shown (some otherwise) => shown.leaves ++ otherwise.leaves
  | .loop _ _ _ body => body.leaves
  | .renderProp _ _ _ body => body.leaves
  | .remark comment => [.remark comment]

def Markup.leavesOf : List Markup → List Markup
  | [] => []
  | m :: ms => m.leaves ++ Markup.leavesOf ms

end

theorem Template.leaves_append (cs ds : List Content) :
    Template.leaves (cs ++ ds) = Template.leaves cs ++ Template.leaves ds := by
  induction cs with
  | nil => rfl
  | cons c cs ih => simp [Template.leaves, ih]

/-- The leaves of the markup show the leaves of the template. -/
theorem Shows.leaves {cs : List Content} {ms : List Markup} (h : Shows env cs ms) :
    Shows env (Template.leaves cs) (Markup.leavesOf ms) := by
  induction h with
  | nil => exact .nil
  | text t _ ih => exact .text t ih
  | value given _ ih => exact .value given ih
  | slot _ ih => exact .slot ih
  | nothing _ ih => exact .nothing ih
  | element _ _ _ _ _ inner ih => exact inner.append ih
  | fragment _ _ inner ih =>
      rw [Template.leaves_append]
      exact inner.append ih
  | conditional _ _ inner ih | loop _ _ inner ih | renderProp _ _ inner ih =>
      rw [Template.leaves_append]
      refine Shows.append ?_ ih
      simpa [Markup.leavesOf, Markup.leaves] using inner

/-! ### Conversion -/

/-- Only a binding of the switched value makes an element a switch. -/
theorem addAttribute_switch {s : Scope} {isComponent : Bool} {formValue : Option String}
    {consumed : List String} {e e' : ElementParts} {attr : Attribute} (other : attr.isSwitch = false)
    (given : Gives (addAttribute env s isComponent formValue consumed e attr) e') :
    e'.switch = e.switch := by
  unfold addAttribute at given
  split at given
  · cases given.pure
    rfl
  · split at given
    · split at given
      · cases given.pure
        rfl
      · split at given
        · cases given.pure
          rfl
        · obtain ⟨bag, _, given⟩ := given.bind
          cases given.pure
          rfl
    · obtain ⟨code, _, given⟩ := given.bind
      rw [if_neg (by simpa [Attribute.isSwitch] using other)] at given
      split at given <;> cases given.pure <;> rfl
    · obtain ⟨h, _, given⟩ := given.bind
      cases given.pure
      rfl
    · obtain ⟨d, _, given⟩ := given.bind
      split at given
      · split at given
        · obtain ⟨_, _, given⟩ := given.bind
          cases given.pure
          rfl
        · cases given.pure
          rfl
      · cases given.pure
        rfl
    · split at given
      · cases given.pure
        rfl
      · obtain ⟨bag, _, given⟩ := given.bind
        cases given.pure
        rfl
    · cases given.pure
      rfl

theorem addAttributes_switch {s : Scope} {isComponent : Bool} {formValue : Option String}
    {consumed : List String} :
    ∀ {attributes : List Attribute} {e e' : ElementParts},
      attributes.any (·.isSwitch) = false →
      Gives (attributes.foldlM (addAttribute env s isComponent formValue consumed) e) e' →
      e'.switch = e.switch
  | [], _, _, _, given => by
      rw [given.pure]
  | attr :: attributes, e, e', other, given => by
      rw [List.any_cons, Bool.or_eq_false_iff] at other
      rw [List.foldlM_cons] at given
      obtain ⟨first, one, given⟩ := given.bind
      rw [addAttributes_switch other.2 given, addAttribute_switch other.1 one]

theorem startTag_switch {s : Scope} {tag : String} {attributes : List Attribute}
    {component : Option String} {start : StartTag} (other : attributes.any (·.isSwitch) = false)
    (given : Gives (startTag env s tag attributes component) start) : start.switch = none := by
  unfold startTag at given
  obtain ⟨_, _, given⟩ := given.bind
  obtain ⟨_, _, given⟩ := given.bind
  obtain ⟨e, gathered, given⟩ := given.bind
  obtain ⟨_, _, given⟩ := given.bind
  obtain ⟨_, _, given⟩ := given.bind
  obtain ⟨_, _, given⟩ := given.bind
  cases given.pure
  exact addAttributes_switch other gathered

mutual

/-- A direct node becomes markup that shows what the node shows. -/
theorem convertNode_shows {content : ContentOf} :
    ∀ {s : Scope} {region : Bool} {n : Node} {m : Option Markup}, n.isDirect = true →
      Gives (convertNode env content s region n) m → Shows env (n.contents region) m.toList
  | s, region, .text t p, m, _, given => by
      unfold convertNode at given
      cases given.pure
      exact .text t .nil
  | s, region, .interpolation _ value p, m, _, given => by
      unfold convertNode at given
      obtain ⟨code, made, given⟩ := given.bind
      cases given.pure
      exact .value made .nil
  | s, region, .element tag attributes children p selfClosing component, m, direct, given => by
      simp only [Node.isDirect, Bool.and_eq_true, Bool.not_eq_true'] at direct
      unfold convertNode at given
      obtain ⟨start, starts, given⟩ := given.bind
      rw [startTag_switch direct.1 starts] at given
      obtain ⟨inner, made, given⟩ := given.bind
      obtain ⟨attrs, finishes, given⟩ := given.bind
      cases given.pure
      exact .element starts finishes (List.suffix_refl attrs) (convertNodes_shows direct.2 made) .nil
  | s, region, .container kind attributes children p, m, direct, given => by
      simp only [Node.isDirect, Bool.and_eq_true, Option.isNone_iff_eq_none] at direct
      -- Governed by a directive, or being a group itself, the container stands for its children.
      have all (given : Gives (do
          return some (Markup.ofList (← convertNodes env content s children))) m) :
          Shows env (Template.contents children) m.toList := by
        obtain ⟨inner, made, given⟩ := given.bind
        cases given.pure
        exact (convertNodes_shows direct.2 made).ofList
      unfold convertNode at given
      unfold Node.contents
      split at given
      · rename_i grouped
        simp only [Bool.and_eq_true, Bool.or_eq_true, beq_iff_eq] at grouped
        rw [if_neg (by grind), if_neg (by grind)]
        exact all given
      · rename_i ungrouped
        split at given
        · rename_i isSlot
          rw [if_pos isSlot]
          obtain ⟨slot, made, given⟩ := given.bind
          cases given.pure
          rw [contentSlot_gives made]
          exact .slot .nil
        · rename_i noSlot
          rw [if_neg noSlot]
          split at given
          · rw [if_pos (by grind)]
            cases given.pure
            exact .nil
          · rw [if_neg (by grind)]
            rw [direct.1] at given
            exact all given
  | s, region, .structural name e clauses child p directive, m, direct, given => by
      simp only [Node.isDirect, Bool.and_eq_true, Bool.not_eq_true', bne_iff_ne, ne_eq] at direct
      obtain ⟨⟨⟨noOutlet, noThen⟩, noElse⟩, inside⟩ := direct
      have inner {s : Scope} {body : Option Markup}
          (made : Gives (convertNode env content s true child) body) :
          Shows env (child.contents true ++ []) [body.getD .nothing] := by
        rw [List.append_nil]
        exact (convertNode_shows inside made).getD
      rw [Node.contents, ← List.append_nil (child.contents true)]
      unfold convertNode at given
      split at given
      · obtain ⟨⟨component, attrs⟩, _, given⟩ := given.bind
        obtain ⟨body, made, given⟩ := given.bind
        cases given.pure
        simpa using Shows.renderProp (inner made) .nil
      · split at given
        · obtain ⟨⟨condition, scope⟩, _, given⟩ := given.bind
          rw [noThen] at given
          obtain ⟨body, made, given⟩ := given.bind
          rw [noElse] at given
          cases given.pure
          simpa using Shows.conditional (inner made) .nil
        · split at given
          · obtain ⟨head, _, given⟩ := given.bind
            obtain ⟨body, made, given⟩ := given.bind
            obtain ⟨keyed, marked, given⟩ := given.bind
            cases given.pure
            simpa using Shows.loop ((inner made).withKey marked) .nil
          · have last (given : Gives (do
                let body ← convertNode env content s true child
                return some (body.getD .nothing)) m) :
                Shows env (child.contents true ++ []) m.toList := by
              obtain ⟨body, made, given⟩ := given.bind
              cases given.pure
              exact inner made
            rw [if_neg (by simpa using noOutlet)] at given
            dsimp only at given
            split at given
            · obtain ⟨_, _, given⟩ := given.bind
              exact last given
            · exact last given

theorem convertNodes_shows {content : ContentOf} :
    ∀ {s : Scope} {ns : List Node} {ms : List Markup}, Template.areDirect ns = true →
      Gives (convertNodes env content s ns) ms → Shows env (Template.contents ns) ms
  | s, [], ms, _, given => by
      unfold convertNodes at given
      cases given.pure
      exact .nil
  | s, n :: ns, ms, direct, given => by
      simp only [Template.areDirect, Bool.and_eq_true] at direct
      unfold convertNodes at given
      obtain ⟨first, one, given⟩ := given.bind
      obtain ⟨rest, more, given⟩ := given.bind
      cases given.pure
      exact (convertNode_shows direct.1 one).append (convertNodes_shows direct.2 more)

end

/-- The markup of a direct template shows everything that the template shows, in document order and
nested as its elements are: leaf for leaf, and one element for each element. -/
theorem convertTemplate_shows {env : TemplateEnv} {template : List Node} {markup : Option Markup}
    (direct : Template.areDirect template = true)
    (made : Gives (convertTemplate env template) markup) :
    Shows env (Template.contents template) markup.toList ∧
      Shows env (Template.leaves (Template.contents template)) (Markup.leavesOf markup.toList) := by
  obtain ⟨_, _, made⟩ := made.bind
  obtain ⟨locals, _, made⟩ := made.bind
  obtain ⟨nodes, converted, made⟩ := made.bind
  cases made.pure
  have shown : Shows env (Template.contents template) nodes := convertNodes_shows direct converted
  have whole : Shows env (Template.contents template)
      (if nodes.isEmpty then none else some (Markup.ofList nodes)).toList := by
    cases nodes with
    | nil => exact shown
    | cons n ns => exact shown.ofList
  exact ⟨whole, whole.leaves⟩

/-- A list of rows, an empty group and a slot. -/
def listTemplate : List Node :=
  [.element "ul" []
    [.structural "ngFor" "let row of rows" { expression := "rows", item := some "row" }
      (.element "li" [] [.text "no. " {}, .interpolation "row" (.text "row") {}] {} false none) {} none]
    {} false none,
   .container "ng-container" [] [] {}, .container "ng-content" [] [] {}]

theorem convertTemplate_shows_listTemplate :
    Template.areDirect listTemplate = true ∧
      ∃ m, Gives (convertTemplate rowsEnv listTemplate) (some m) ∧
        Shows rowsEnv [.text "no. ", .value (.text "row"), .slot] m.leaves := by
  have direct : Template.areDirect listTemplate = true := by decide
  have converted : (convertTemplate rowsEnv listTemplate).value?.any Option.isSome = true := by
    decide +kernel
  obtain ⟨markup, found, some⟩ := (Option.any_eq_true _ _).mp converted
  obtain ⟨m, rfl⟩ := Option.isSome_iff_exists.mp some
  have made := Converting.gives_of_value? found
  refine ⟨direct, m, made, ?_⟩
  have shown := (convertTemplate_shows direct made).2
  simpa [Markup.leavesOf, listTemplate, Template.contents, Node.contents, Template.leaves,
    Content.leaves] using shown

end ReactMigration
