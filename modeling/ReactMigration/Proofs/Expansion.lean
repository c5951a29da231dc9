import Mathlib.Data.List.Perm.Subperm
import ReactMigration.Proofs.TemplateImports
import ReactMigration.Proofs.Templates
import ReactMigration.Run.Output

/-!
When the expansion of a template ends.

Templates that a component shows by reference form a graph: a template leads to the templates that
its content shows.  If no template that is shown leads back to itself, the bound on references within
one another is never reached, and the conversion is the same for every larger bound.  If one does,
no bound is large enough.
-/

namespace ReactMigration

open ReactMigration.Template
open Relation (ReflTransGen TransGen)
open Converting (outcome outcome_bind)

variable {α β : Type} {env : TemplateEnv}

/-! ### The graph of templates -/

/-- The content of the first template shows the second. -/
def Follows (refs : Table TemplateReference) (a b : String) : Prop :=
  ∃ ref, refs.get? a = some ref ∧ ref.kind = .template ∧ b ∈ templateShows ref.children

/-- Following references from the name leads to a template that shows itself. -/
def Endless (refs : Table TemplateReference) (name : String) : Prop :=
  ∃ a, ReflTransGen (Follows refs) name a ∧ TransGen (Follows refs) a a

/-- Some template that is shown leads to one that shows itself. -/
def ShowsItself (refs : Table TemplateReference) (template : List Node) : Prop :=
  ∃ name ∈ templateShows template, Endless refs name

/-- Chains of references from the name have fewer links than the bound. -/
def Unfolds (refs : Table TemplateReference) : Nat → String → Prop
  | 0, _ => False
  | n + 1, a => ∀ b, Follows refs a b → Unfolds refs n b

theorem Endless.next {refs : Table TemplateReference} {name : String} (h : Endless refs name) :
    ∃ b, Follows refs name b ∧ Endless refs b := by
  obtain ⟨a, path, cycle⟩ := h
  rcases ReflTransGen.cases_head path with rfl | ⟨b, step, rest⟩
  · obtain ⟨b, step, back⟩ := TransGen.head'_iff.mp cycle
    exact ⟨b, step, name, back, cycle⟩
  · exact ⟨b, step, a, rest, cycle⟩

theorem Endless.head {refs : Table TemplateReference} {a b : String} (h : Endless refs b)
    (step : Follows refs a b) : Endless refs a := by
  obtain ⟨c, path, cycle⟩ := h
  exact ⟨c, .head step path, cycle⟩

/-- A chain without repetition has no more links than there are names, so where nothing leads back
chains are shorter than any larger bound. -/
theorem unfolds_of_acyclic {refs : Table TemplateReference} :
    ∀ (n : Nat) (a : String) (visited : List String), visited.Nodup →
      (∀ v ∈ visited, v ∈ refs.keys ∧ TransGen (Follows refs) v a) → ¬ Endless refs a →
      refs.length < n + visited.length → Unfolds refs n a
  | 0, a, visited, nodup, seen, _, bound => by
      -- by now more names would have been visited than there are
      have fits : visited.length ≤ refs.keys.length :=
        (nodup.subperm fun v hv => (seen v hv).1).length_le
      simp only [Table.keys, List.length_map] at fits
      omega
  | n + 1, a, visited, nodup, seen, acyclic, bound => by
      intro b step
      refine unfolds_of_acyclic n b (a :: visited) ?_ ?_ (fun endless => acyclic (endless.head step)) ?_
      · -- all visited names lead here, so coming back to one of them closes a circle
        refine List.nodup_cons.mpr ⟨fun again => acyclic ?_, nodup⟩
        exact ⟨a, .refl, (seen a again).2⟩
      · intro v hv
        rcases List.mem_cons.mp hv with rfl | hv
        · have known := step
          obtain ⟨ref, found, _⟩ := known
          exact ⟨List.mem_map.mpr ⟨_, Table.mem_of_get? found, rfl⟩, .single step⟩
        · exact ⟨(seen v hv).1, (seen v hv).2.tail step⟩
      · simp only [List.length_cons]
        omega

theorem unfolds_of_not_endless {refs : Table TemplateReference} {a : String}
    (h : ¬ Endless refs a) : Unfolds refs (refs.length + 1) a :=
  unfolds_of_acyclic _ a [] .nil (by simp) h (by simp)

/-! ### Conversions that depend on the shown templates alone -/

/-- Two contents are alike on the named templates. -/
def Agree (content content' : ContentOf) (names : List String) : Prop :=
  ∀ name s p, name.getD "" ∈ names → content name s p = content' name s p

theorem Agree.mono {content content' : ContentOf} {names names' : List String}
    (h : Agree content content' names) (fewer : names' ⊆ names) : Agree content content' names' :=
  fun name s p mem => h name s p (fewer mem)

mutual

/-- A node is converted alike with contents that agree on the templates it shows. -/
theorem convertNode_congr {content content' : ContentOf} :
    ∀ (n : Node) (s : Scope) (region : Bool), Agree content content' (nodeShows region n) →
      convertNode env content s region n = convertNode env content' s region n
  | .text t p, s, region, _ => by
      unfold convertNode
      rfl
  | .interpolation expression value p, s, region, _ => by
      unfold convertNode
      rfl
  | .element tag attributes children p selfClosing component, s, region, agree => by
      simp only [nodeShows] at agree
      unfold convertNode
      simp only [convertNodes_congr children s agree, convertSwitch_congr children s _ agree]
  | .container kind attributes children p, s, region, agree => by
      have inner (agree : Agree content content' (templateShows children)) :=
        convertNodes_congr children s agree
      unfold nodeShows at agree
      unfold convertNode
      split
      · rename_i grouped
        rw [if_pos grouped] at agree
        rw [inner agree]
      · rename_i single
        rw [if_neg single] at agree
        split
        · rfl
        · split
          · rfl
          · rw [if_neg (by simp_all)] at agree
            split
            · rename_i outlet
              rw [outlet] at agree
              exact agree _ s p (List.mem_singleton.mpr rfl)
            · rename_i outlet
              rw [outlet] at agree
              rw [inner agree]
  | .structural name expression clauses child p directive, s, region, agree => by
      have inner (s : Scope) (agree : Agree content content' (nodeShows true child)) :=
        convertNode_congr child s true agree
      unfold nodeShows at agree
      unfold convertNode
      split
      · simp only [inner _ agree]
      · rw [if_neg (by simp)] at agree
        split
        · rename_i condition
          rw [if_pos condition] at agree
          refine bind_congr fun head => ?_
          have first := agree.mono (List.subset_append_left _ _)
          have last := agree.mono (List.subset_append_right _ _)
          by_cases shown : present clauses.thenRef <;> by_cases other : present clauses.elseRef <;>
            simp only [shown, other, if_true, if_false, Bool.false_eq_true] at first last ⊢
          · rw [first _ _ p (by simp), last _ _ p (by simp)]
          · rw [first _ _ p (by simp)]
          · rw [inner _ first, last _ _ p (by simp)]
          · rw [inner _ first]
        · rename_i condition
          rw [if_neg condition] at agree
          split
          · rename_i loop
            rw [if_neg (by rintro outlet; simp_all)] at agree
            simp only [inner _ agree]
          · split
            · rename_i outlet
              rw [if_pos outlet] at agree
              rw [agree (some clauses.expression) s p (by simp)]
            · rename_i outlet
              rw [if_neg outlet] at agree
              simp only [inner _ agree]

/-- Nodes are converted alike with contents that agree on the templates they show. -/
theorem convertNodes_congr {content content' : ContentOf} :
    ∀ (ns : List Node) (s : Scope), Agree content content' (templateShows ns) →
      convertNodes env content s ns = convertNodes env content' s ns
  | [], s, _ => by
      unfold convertNodes
      rfl
  | n :: ns, s, agree => by
      simp only [templateShows] at agree
      unfold convertNodes
      rw [convertNode_congr n s false (agree.mono (List.subset_append_left _ _)),
        convertNodes_congr ns s (agree.mono (List.subset_append_right _ _))]

theorem convertSwitch_congr {content content' : ContentOf} :
    ∀ (ns : List Node) (s : Scope) (switch : String), Agree content content' (templateShows ns) →
      convertSwitch env content s switch ns = convertSwitch env content' s switch ns
  | [], s, switch, _ => by
      unfold convertSwitch
      rfl
  | .structural name expression clauses child p directive :: ns, s, switch, agree => by
      simp only [templateShows] at agree
      have here := agree.mono (List.subset_append_left _ _)
      have node := convertNode_congr (.structural name expression clauses child p directive) s false here
      have rest := convertSwitch_congr ns s switch (agree.mono (List.subset_append_right _ _))
      have inner (s : Scope) (case : name = "ngSwitchCase" ∨ name = "ngSwitchDefault") :
          convertNode env content s true child = convertNode env content' s true child := by
        refine convertNode_congr child s true ?_
        rcases case with rfl | rfl <;> simpa [nodeShows] using here
      unfold convertSwitch
      split
      · rename_i h
        cases h
      · rename_i h
        cases h
        simp only [inner _ (.inl rfl), rest]
      · rename_i h
        cases h
        simp only [inner _ (.inr rfl), rest]
      · rename_i h
        cases h
        simp only [node, rest]
  | .text _ _ :: ns, s, switch, agree
  | .interpolation _ _ _ :: ns, s, switch, agree
  | .element _ _ _ _ _ _ :: ns, s, switch, agree
  | .container _ _ _ _ :: ns, s, switch, agree => by
      simp only [templateShows] at agree
      have first := convertNode_congr _ s false (agree.mono (List.subset_append_left _ _))
      have rest := convertSwitch_congr ns s switch (agree.mono (List.subset_append_right _ _))
      unfold convertSwitch
      rw [first, rest]

end

/-! ### Conversions that never return -/

/-- The work breaks off, whatever the draft. -/
def Fails (m : Converting α) : Prop :=
  ∀ d t, ∃ f t', outcome m d t = (.error f, t')

namespace Fails

variable {m : Converting α} {f : α → Converting β}

theorem throw (fault : Fault) : Fails (MonadExcept.throw fault : Converting α) :=
  fun _ t => ⟨fault, t, rfl⟩

theorem bind_left (h : Fails m) : Fails (m >>= f) := by
  intro d t
  obtain ⟨fault, t', failed⟩ := h d t
  exact ⟨fault, t', by rw [outcome_bind, failed]⟩

theorem bind_right (h : ∀ a, Fails (f a)) : Fails (m >>= f) := by
  intro d t
  rw [outcome_bind]
  rcases outcome m d t with ⟨fault | ⟨a, d'⟩, t'⟩
  · exact ⟨fault, t', rfl⟩
  · exact h a d' t'

end Fails

/-- What stands for the template breaks off. -/
def ContentFails (content : ContentOf) (shown : String) : Prop :=
  ∀ name s p, name.getD "" = shown → Fails (content name s p)

mutual

/-- A node that shows a template whose content breaks off breaks off as well. -/
theorem convertNode_fails {content : ContentOf} {shown : String}
    (failing : ContentFails content shown) :
    ∀ (n : Node) (s : Scope) (region : Bool), shown ∈ nodeShows region n →
      Fails (convertNode env content s region n)
  | .text t p, s, region, mem => by simp [nodeShows] at mem
  | .interpolation expression value p, s, region, mem => by simp [nodeShows] at mem
  | .element tag attributes children p selfClosing component, s, region, mem => by
      simp only [nodeShows] at mem
      unfold convertNode
      refine .bind_right fun start => ?_
      extract_lets rest
      split
      · exact (convertSwitch_fails failing children s _ mem).bind_left
      · exact (convertNodes_fails failing children s mem).bind_left
  | .container kind attributes children p, s, region, mem => by
      have inner (mem : shown ∈ templateShows children) := convertNodes_fails failing children s mem
      unfold nodeShows at mem
      unfold convertNode
      split
      · rename_i grouped
        rw [if_pos grouped] at mem
        exact (inner mem).bind_left
      · rename_i single
        rw [if_neg single] at mem
        split at mem
        · cases mem
        · rename_i other
          rw [if_neg (by simp_all), if_neg (by simp_all)]
          split
          · rename_i outlet
            rw [outlet] at mem
            exact failing _ s p (List.mem_singleton.mp mem).symm
          · rename_i outlet
            rw [outlet] at mem
            exact (inner mem).bind_left
  | .structural name expression clauses child p directive, s, region, mem => by
      have inner (s : Scope) (mem : shown ∈ nodeShows true child) := convertNode_fails failing child s true mem
      unfold nodeShows at mem
      unfold convertNode
      split
      · exact .bind_right fun head => (inner _ mem).bind_left
      · rw [if_neg (by simp)] at mem
        split
        · rename_i condition
          rw [if_pos condition] at mem
          refine .bind_right fun head => ?_
          obtain ⟨condition, within⟩ := head
          dsimp -zeta only
          extract_lets rest
          rcases List.mem_append.mp mem with first | last
          · split
            · rename_i named
              rw [if_pos named] at first
              exact (failing _ _ p (List.mem_singleton.mp first).symm).bind_left
            · rename_i unnamed
              rw [if_neg unnamed] at first
              exact (inner _ first).bind_left
          · have otherwise (region : Option Markup) : Fails (rest region) := by
              unfold rest
              split at last
              · rename_i named
                rw [if_pos named]
                exact (failing _ _ p (List.mem_singleton.mp last).symm).bind_left
              · cases last
            split <;> exact .bind_right otherwise
        · rename_i condition
          rw [if_neg condition] at mem
          split
          · rename_i loop
            rw [if_neg (by rintro outlet; simp_all)] at mem
            exact .bind_right fun head => (inner _ mem).bind_left
          · split
            · rename_i outlet
              rw [if_pos outlet] at mem
              have content := failing (some clauses.expression) s p (List.mem_singleton.mp mem).symm
              split
              · exact .bind_right fun _ => content
              · exact content
            · rename_i outlet
              rw [if_neg outlet] at mem
              extract_lets rest
              have shown : Fails (rest ()) := (inner s mem).bind_left
              split
              · exact .bind_right fun _ => shown
              · exact shown

theorem convertNodes_fails {content : ContentOf} {shown : String}
    (failing : ContentFails content shown) :
    ∀ (ns : List Node) (s : Scope), shown ∈ templateShows ns → Fails (convertNodes env content s ns)
  | [], s, mem => by simp [templateShows] at mem
  | n :: ns, s, mem => by
      simp only [templateShows, List.mem_append] at mem
      unfold convertNodes
      rcases mem with first | rest
      · exact (convertNode_fails failing n s false first).bind_left
      · exact .bind_right fun _ => (convertNodes_fails failing ns s rest).bind_left

theorem convertSwitch_fails {content : ContentOf} {shown : String}
    (failing : ContentFails content shown) :
    ∀ (ns : List Node) (s : Scope) (switch : String), shown ∈ templateShows ns →
      Fails (convertSwitch env content s switch ns)
  | [], s, switch, mem => by simp [templateShows] at mem
  | .structural name expression clauses child p directive :: ns, s, switch, mem => by
      simp only [templateShows, List.mem_append] at mem
      have node := convertNode_fails failing (.structural name expression clauses child p directive) s false
      have inner (s : Scope) (case : name = "ngSwitchCase" ∨ name = "ngSwitchDefault")
          (mem : shown ∈ nodeShows false (.structural name expression clauses child p directive)) :
          Fails (convertNode env content s true child) := by
        refine convertNode_fails failing child s true ?_
        rcases case with rfl | rfl <;> simpa [nodeShows] using mem
      have rest := convertSwitch_fails failing ns s switch
      unfold convertSwitch
      split
      · rename_i h
        cases h
      · rename_i h
        cases h
        refine .bind_right fun value => ?_
        rcases mem with here | later
        · exact (inner _ (.inl rfl) here).bind_left
        · exact .bind_right fun _ => (rest later).bind_left
      · rename_i h
        cases h
        rcases mem with here | later
        · exact (inner _ (.inr rfl) here).bind_left
        · exact .bind_right fun _ => (rest later).bind_left
      · rename_i h
        cases h
        rcases mem with here | later
        · exact (node here).bind_left
        · exact .bind_right fun _ => (rest later).bind_left
  | .text _ _ :: ns, s, switch, mem
  | .interpolation _ _ _ :: ns, s, switch, mem
  | .element _ _ _ _ _ _ :: ns, s, switch, mem
  | .container _ _ _ _ :: ns, s, switch, mem => by
      simp only [templateShows, List.mem_append] at mem
      unfold convertSwitch
      rcases mem with here | later
      · exact (convertNode_fails failing _ s false here).bind_left
      · exact .bind_right fun _ => (convertSwitch_fails failing ns s switch later).bind_left

end

/-! ### Contents of templates -/

/-- Content that leads to a template showing itself breaks off at every bound. -/
theorem templateContent_fails :
    ∀ (n : Nat) (name : Option String) (s : Scope) (p : Position), Endless env.refs (name.getD "") →
      Fails (templateContent env n name s p)
  | 0, _, _, _, _ => .throw _
  | n + 1, name, s, p, endless => by
      obtain ⟨b, ⟨ref, found, kind, shown⟩, later⟩ := endless.next
      unfold templateContent
      simp only [found, kind, beq_self_eq_true, if_true]
      refine (convertNodes_fails (fun name s p same => ?_) _ s shown).bind_left
      exact templateContent_fails n name s p (same ▸ later)

/-- Where chains of references are shorter than the bound, a larger bound changes nothing. -/
theorem templateContent_stable :
    ∀ {n m : Nat} {name : Option String}, Unfolds env.refs n (name.getD "") → n ≤ m →
      ∀ s p, templateContent env m name s p = templateContent env n name s p
  | 0, _, _, short, _, _, _ => short.elim
  | _ + 1, 0, _, _, le, _, _ => by omega
  | n + 1, m + 1, name, short, le, s, p => by
      unfold templateContent
      split
      · rename_i ref found
        split
        · rename_i kind
          refine congrArg (· >>= _) (convertNodes_congr _ s fun shown s p mem => ?_)
          exact templateContent_stable (short _ ⟨ref, found, eq_of_beq kind, mem⟩) (by omega) s p
        · rfl
      · rfl

/-- Where chains of references are shorter than the bound, the bound is not reached. -/
theorem templateContent_spared :
    ∀ {n : Nat} {name : Option String}, Unfolds env.refs n (name.getD "") →
      ∀ s p, Gathers (fun _ => True) False (templateContent env n name s p)
  | 0, _, short, _, _ => short.elim
  | n + 1, name, short, s, p => by
      have admitted (c : String) : Admits env.index (fun _ => True) c :=
        fun _ _ => ⟨trivial, fun _ _ => trivial⟩
      unfold templateContent
      split
      · rename_i ref found
        split
        · rename_i kind
          refine (convertNodes_gathers (fun _ _ _ _ _ => trivial) _ s (fun c _ => admitted c)
            fun shown s p mem => ?_).bind fun _ => .pure _
          exact templateContent_spared (short _ ⟨ref, found, eq_of_beq kind, mem⟩) s p
        · exact noTemplate_gathers name p
      · exact noTemplate_gathers name p

/-! ### Whole templates -/

/-- Converts a template, following at most so many references within one another. -/
def convertTemplateWithin (env : TemplateEnv) (n : Nat) (template : List Node) :
    Converting (Option Markup) := do
  modify (Draft.forTemplate env.names)
  let locals ← referenceLocals env env.refs
  let nodes ← convertNodes env (templateContent env n) { locals } template
  return if nodes.isEmpty then none else some (.ofList nodes)

theorem convertTemplate_eq_within (env : TemplateEnv) (template : List Node) :
    convertTemplate env template = convertTemplateWithin env (env.refs.length + 1) template :=
  rfl

/-- A template that shows itself is converted at no bound. -/
theorem convertTemplateWithin_fails {template : List Node} (h : ShowsItself env.refs template)
    (n : Nat) : Fails (convertTemplateWithin env n template) := by
  obtain ⟨name, shown, endless⟩ := h
  refine .bind_right fun _ => .bind_right fun locals => Fails.bind_left ?_
  refine convertNodes_fails (fun shown s p same => ?_) _ _ shown
  exact templateContent_fails n shown s p (same ▸ endless)

/-- A template that does not show itself is converted at every bound beyond the number of its
references, each time alike. -/
theorem convertTemplateWithin_stable {template : List Node} (h : ¬ ShowsItself env.refs template)
    {n : Nat} (larger : env.refs.length < n) :
    convertTemplateWithin env n template = convertTemplate env template := by
  rw [convertTemplate_eq_within]
  refine bind_congr fun _ => bind_congr fun locals => ?_
  refine congrArg (· >>= _) (convertNodes_congr _ _ fun name s p mem => ?_)
  exact templateContent_stable (unfolds_of_not_endless fun endless => h ⟨_, mem, endless⟩) larger s p

/-- A template that does not show itself does not break off over templates without end. -/
theorem convertTemplate_spared {template : List Node} (h : ¬ ShowsItself env.refs template) :
    Gathers (fun _ => True) False (convertTemplate env template) := by
  refine .bind (.modify fun _ => .refl) fun _ => ?_
  refine (referenceLocals_gathers env.refs).bind fun locals => ?_
  refine (convertNodes_gathers (fun _ _ _ _ _ => trivial) _ _ (fun c _ _ _ => ?_)
    fun name s p mem => ?_).bind fun _ => .pure _
  · exact ⟨trivial, fun _ _ => trivial⟩
  · exact templateContent_spared (unfolds_of_not_endless fun endless => h ⟨_, mem, endless⟩) s p

/-- A template is converted exactly if it does not show itself, at once or through others, and nothing
else breaks the conversion off.  Then every bound beyond the number of references gives the same
conversion; a template that shows itself is converted at no bound. -/
theorem convertTemplate_returns_iff (env : TemplateEnv) (template : List Node) (d : Draft) (t : Sink) :
    ((∃ r t', outcome (convertTemplate env template) d t = (.ok r, t')) ↔
      ¬ ShowsItself env.refs template ∧
        ∀ f t', f ≠ .endlessTemplate → outcome (convertTemplate env template) d t ≠ (.error f, t')) ∧
    (¬ ShowsItself env.refs template → ∀ n > env.refs.length,
      convertTemplateWithin env n template = convertTemplate env template) ∧
    (ShowsItself env.refs template → ∀ n r t',
      outcome (convertTemplateWithin env n template) d t ≠ (.ok r, t')) := by
  have never (shows : ShowsItself env.refs template) (n : Nat) (r : Option Markup × Draft) (t' : Sink) :
      outcome (convertTemplateWithin env n template) d t ≠ (.ok r, t') := by
    obtain ⟨f, t'', failed⟩ := convertTemplateWithin_fails shows n d t
    rw [failed]
    rintro ⟨⟩
  refine ⟨⟨?_, ?_⟩, fun h n larger => convertTemplateWithin_stable h larger, never⟩
  · rintro ⟨r, t', returned⟩
    refine ⟨fun shows => never shows _ r t' returned, fun f t'' _ failed => ?_⟩
    rw [returned] at failed
    cases failed
  · rintro ⟨acyclic, sound⟩
    rcases run : outcome (convertTemplate env template) d t with ⟨f | r, t'⟩
    · by_cases endless : f = .endlessTemplate
      · subst endless
        exact ((convertTemplate_spared acyclic d t _ _ run).2 rfl).elim
      · exact (sound f t' endless run).elim
    · exact ⟨r, t', rfl⟩

/-- The model of the only class of a unit, a component. -/
def Work.componentModel? (w : Work) : Option ComponentModel :=
  match w.items with
  | [item] =>
      match ((item.model (Work.index [w])).run.run { unit := w.path }).1 with
      | .ok (.component m) => some m
      | _ => none
  | _ => none

/-- A unit with a template that shows itself. -/
def selfShowingUnit : Work where
  path := "a.ts"
  items := [.declaration (.component
    { name := "A", sourcePath := "a.ts"
      templateNodes := (Template.parse ("<ng-template #t><p *ngTemplateOutlet=\"t\"></p></ng-template>" ++
        "<p *ngTemplateOutlet=\"t\"></p>")).toOption.getD [] })]

theorem convertTemplate_endless_selfShowingUnit : ∃ m, selfShowingUnit.componentModel? = some m ∧
    ∀ env, env.refs = m.templateRefs → ∀ n d t r t',
      outcome (convertTemplateWithin env n m.template) d t ≠ (.ok r, t') := by
  have computed : (selfShowingUnit.componentModel?.any fun m =>
      (templateShows m.template).contains "t" &&
        (m.templateRefs.get? "t").any fun ref =>
          ref.kind == .template && (templateShows ref.children).contains "t") = true := by
    decide +kernel
  obtain ⟨m, found, facts⟩ := (Option.any_eq_true _ _).mp computed
  simp only [Bool.and_eq_true, Option.any_eq_true, List.contains_iff_mem] at facts
  obtain ⟨shown, ref, named, kind, again⟩ := facts
  refine ⟨m, found, fun env refs n d t r t' => ?_⟩
  have step : Follows env.refs "t" "t" := ⟨ref, refs ▸ named, eq_of_beq kind, again⟩
  have shows : ShowsItself env.refs m.template := ⟨"t", shown, "t", .refl, .single step⟩
  obtain ⟨f, t'', failed⟩ := convertTemplateWithin_fails shows n d t
  rw [failed]
  rintro ⟨⟩

end ReactMigration
