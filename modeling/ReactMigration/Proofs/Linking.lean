import ReactMigration.Proofs.Index
import ReactMigration.Proofs.Outcome

/-!
Linked templates: every element that stands for a component names a component of the index, also in
the nodes that template references keep.
-/

namespace ReactMigration.Model

open ReactMigration.Template
open Relation (ReflTransGen)

variable {index : SymbolIndex} {ds : List Declaration}

/-- The name leads to a component. -/
def NamesComponent (index : SymbolIndex) (name : String) : Prop :=
  ∃ s, index.lookup name = some s ∧ s.kind = .component

mutual

/-- Every element in the node that stands for a component names one. -/
def Linked (index : SymbolIndex) : Node → Prop
  | .element _ _ children _ _ component =>
      (∀ name ∈ component, NamesComponent index name) ∧ AllLinked index children
  | .container _ _ children _ => AllLinked index children
  | .structural _ _ _ child _ _ => Linked index child
  | .interpolation _ _ _ => True
  | .text _ _ => True

/-- All nodes are linked. -/
def AllLinked (index : SymbolIndex) : List Node → Prop
  | [] => True
  | n :: ns => Linked index n ∧ AllLinked index ns

end

/-- Every node that a template reference keeps is linked. -/
def RefsLinked (index : SymbolIndex) (refs : Table TemplateReference) : Prop :=
  ∀ name ref, (name, ref) ∈ refs → Linked index ref.node

theorem RefsLinked.set {refs : Table TemplateReference} {name : String} {ref : TemplateReference}
    (h : RefsLinked index refs) (new : Linked index ref.node) :
    RefsLinked index (refs.set name ref) := by
  intro key r hr
  rcases Table.mem_set hr with eq | old
  · cases eq
    exact new
  · exact h key r old

/-! ### Attributes -/

/-- The references that have been gathered stay. -/
def SameRefs (s s' : TemplateScope) : Prop :=
  s'.refs = s.refs

theorem SameRefs.ofSteps {s s' : TemplateScope} (h : ReflTransGen SameRefs s s') :
    s'.refs = s.refs := by
  induction h with
  | refl => rfl
  | tail _ step ih => exact step.trans ih

theorem checkPipes_ensures (value : BoundValue) (p : Position) :
    (checkPipes index value p).Ensures fun _ => True := by
  refine .forM fun step _ => ?_
  split
  · exact .pure trivial
  · exact .warnAt _ _ _ _

theorem noteMutation_moves (expression : String) : Moves SameRefs (noteMutation expression) := by
  unfold noteMutation
  split
  · refine .modify fun s => .single ?_
    split <;> rfl
  · exact .pure _

theorem linkAttribute_moves (a : Attribute) : Moves SameRefs (linkAttribute index a) := by
  unfold linkAttribute
  cases a with
  | twoWay name expression p => exact (noteMutation_moves expression).bind fun _ => .pure _
  | static name value p =>
      dsimp only
      split <;> exact .pure _
  | property name expression value p twoWay =>
      dsimp only
      split
      · exact .pure _
      · exact (Moves.lifted (checkPipes_ensures value p)).bind fun _ => .pure _
  | event name handler p twoWay =>
      dsimp only
      refine .bind (.forIn fun statement _ _ => ?_) fun _ => .pure _
      refine (Moves.lifted (.lift fun _ _ => trivial)).bind fun found => ?_
      split
      · exact (noteMutation_moves _).bind fun _ => .pure _
      · exact .bind (.pure _) fun _ => .pure _
  | directive name expression value p bound resolved =>
      dsimp only
      split
      · exact (Moves.lifted (checkPipes_ensures _ p)).bind fun _ => .pure _
      · exact .bind (.pure _) fun _ => .pure _
  | reference name value p => exact .pure _

theorem linkAttributes_moves (attributes : List Attribute) :
    Moves SameRefs (linkAttributes index attributes) :=
  (Moves.mapM fun a _ => linkAttribute_moves a).bind fun _ => .pure _

/-! ### Nodes -/

/-- Work on a template that leaves the references linked and gives something with the property. -/
abbrev Links (index : SymbolIndex) {α : Type} (m : Linking α) (P : α → Prop) : Prop :=
  ∀ s, RefsLinked index s.refs → Runs m s fun a s' => RefsLinked index s'.refs ∧ P a

theorem linkAttributes_links (attributes : List Attribute) :
    Links index (linkAttributes index attributes) fun _ => True :=
  fun s h => (linkAttributes_moves attributes s).mono fun _ _ steps =>
    ⟨SameRefs.ofSteps steps ▸ h, trivial⟩

theorem registerRefs_links {node : Node} (linked : Linked index node) (attributes : List Attribute)
    (kind : ReferenceKind) : Links index (registerRefs node attributes kind) fun _ => True := by
  intro s h
  refine Runs.mono (Q := fun _ s' => RefsLinked index s'.refs) ?_ fun _ _ h' => ⟨h', trivial⟩
  refine .forM h fun a _ s h => ?_
  cases a with
  | reference name value p =>
      refine .get_bind ?_
      dsimp only
      split
      · exact .lifted_bind (.warnAt _ _ _ _) fun _ _ => .modify (h.set linked)
      · exact .modify (h.set linked)
  | _ => exact .pure h

/-- The component that an element is given is one of the index. -/
theorem componentFor_ensures (sound : SymbolIndex.Sound ds index) (tag : String) (p : Position) :
    (componentFor index tag p).Ensures fun found => ∀ name ∈ found, NamesComponent index name := by
  have remark {found : Option String} (known : ∀ name ∈ found, NamesComponent index name) (c : Prop)
      [Decidable c] (message : String) :
      (if c then do unresolvedAt message p; return found else return found : Noting _).Ensures
        fun found => ∀ name ∈ found, NamesComponent index name := by
    split
    · exact (Noting.Ensures.warnAt _ _ _ _).bind fun _ _ => .pure known
    · exact .pure known
  refine remark ?_ _ _
  intro name hn
  split at hn
  · rename_i s found
    split at hn
    · rename_i kind
      cases hn
      exact ⟨s, sound.registered_of_element found, by simpa using kind⟩
    · cases hn
  · cases hn

mutual

theorem linkNode_links (sound : SymbolIndex.Sound ds index) :
    ∀ n, Links index (linkNode index n) (Linked index)
  | .element tag attributes children p selfClosing _, s, h => by
      unfold linkNode
      refine .lifted_bind (componentFor_ensures sound tag p) fun component known => ?_
      refine (linkAttributes_links attributes s h).bind fun attributes s₂ h₂ => ?_
      refine (linkNodes_links sound children s₂ h₂.1).bind fun children s₃ h₃ => ?_
      have linked : Linked index (.element tag attributes children p selfClosing component) := by
        simp only [Linked]
        exact ⟨known, h₃.2⟩
      exact (registerRefs_links linked attributes _ s₃ h₃.1).bind fun _ s₄ h₄ => .pure ⟨h₄.1, linked⟩
  | .container kind attributes children p, s, h => by
      unfold linkNode
      have inner (s₁ : TemplateScope) (h₁ : RefsLinked index s₁.refs) : Runs (do
          let attributes ← linkAttributes index attributes
          let children ← linkNodes index children
          let node := Node.container kind attributes children p
          registerRefs node attributes (if kind == "ng-template" then .template else .element)
          return node) s₁ fun a s' => RefsLinked index s'.refs ∧ Linked index a := by
        refine (linkAttributes_links attributes s₁ h₁).bind fun attributes s₂ h₂ => ?_
        refine (linkNodes_links sound children s₂ h₂.1).bind fun children s₃ h₃ => ?_
        have linked : Linked index (.container kind attributes children p) := by
          simp only [Linked]
          exact h₃.2
        exact (registerRefs_links linked attributes _ s₃ h₃.1).bind fun _ s₄ h₄ =>
          .pure ⟨h₄.1, linked⟩
      dsimp only
      split
      · exact .modify_bind (inner _ h)
      · exact inner s h
  | .structural name expression clauses child p _, s, h => by
      unfold linkNode
      have inner (directive : Option String) : Runs (do
          checkPipes index (parseBoundValue clauses.expression (some p)) p
          return .structural name expression clauses (← linkNode index child) p directive) s
          fun a s' => RefsLinked index s'.refs ∧ Linked index a := by
        refine .lifted_bind (checkPipes_ensures _ p) fun _ _ => ?_
        refine (linkNode_links sound child s h).bind fun child s₂ h₂ => .pure ⟨h₂.1, ?_⟩
        simp only [Linked]
        exact h₂.2
      dsimp only
      split <;> split
      · exact .lifted_bind (.warnAt _ _ _ _) fun _ _ => inner _
      · exact inner _
      · exact .lifted_bind (.warnAt _ _ _ _) fun _ _ => inner _
      · exact inner _
  | .interpolation expression value p, s, h => by
      unfold linkNode
      refine .lifted_bind (checkPipes_ensures value p) fun _ _ => ?_
      exact .pure ⟨h, by simp only [Linked]⟩
  | .text t p, s, h => by
      unfold linkNode
      exact .pure ⟨h, by simp only [Linked]⟩

theorem linkNodes_links (sound : SymbolIndex.Sound ds index) :
    ∀ ns, Links index (linkNodes index ns) (AllLinked index)
  | [], s, h => by
      unfold linkNodes
      exact .pure ⟨h, by simp only [AllLinked]⟩
  | n :: ns, s, h => by
      unfold linkNodes
      refine (linkNode_links sound n s h).bind fun n s₁ h₁ => ?_
      refine (linkNodes_links sound ns s₁ h₁.1).bind fun ns s₂ h₂ => .pure ⟨h₂.1, ?_⟩
      simp only [AllLinked]
      exact ⟨h₁.2, h₂.2⟩

end

end ReactMigration.Model
