import Mathlib.Data.List.Nodup
import ReactMigration.Proofs.Items
import ReactMigration.Proofs.ParsedFiles

/-!
The names declared in the scope of a component's function.

Names that are kept from the class and names that the template makes are all different.  Names that
are derived without a look at the scope (callbacks of outputs, projected content, what the router
gives, setters, the ref to the host) are what a clash needs.
-/

namespace ReactMigration

open ReactMigration.Text

variable {index : SymbolIndex} {order : NameOrder} {ds : List Declaration}

/-! ### Declared names -/

/-- The variable that a destructured prop becomes. -/
def PropField.boundName (p : PropField) : String :=
  if present p.binding then p.binding.getD "" else p.name

/-- The variable that a hook call declares, perhaps as the first part of a list. -/
def callVariable (call : String) : String :=
  let declared := call.toList.drop 6
  String.ofList ((if declared.head? = some '[' then declared.tail else declared).takeWhile
    Pattern.isName)

def FunctionBody.variables (b : FunctionBody) : List String :=
  b.hookCalls.map callVariable ++ b.state.map (·.name) ++ b.state.map (·.setter) ++
    b.refs.map (·.name) ++ b.constants.map (·.name) ++ b.functions.map (·.name) ++
    b.derived.map (·.name) ++ b.memos.map (·.name)

/-- Whether the props are taken apart; a stub with nothing in its body leaves them whole. -/
def ComponentArtifact.destructures (c : ComponentArtifact) : Bool :=
  !(present c.stubReason && c.body == {})

/-- Every name declared in the scope of a component's function. -/
def ComponentArtifact.scopeNames (c : ComponentArtifact) : List String :=
  (if c.destructures then c.props.map (·.boundName)
    else if c.props.isEmpty then [] else ["_props"]) ++ c.body.variables

def ComponentDecl.memberNames (d : ComponentDecl) : List String :=
  d.inputs.map (·.name) ++ d.outputs.map (·.name) ++ d.fields.map (·.name) ++
    (d.methods.filter (Model.isMember (Model.setterNames d.inputs))).map (·.name) ++
    d.dependencies.map (·.name)

def isRouterCall (call : String) : Bool :=
  Members.routerCalls.contains call

/-- The names that are derived from others or fixed: the callbacks of outputs and projected content,
what the router gives, the setters, and the ref made for the host element. -/
def derivedNames (d : ComponentDecl) (c : ComponentArtifact) : List String :=
  (c.props.drop d.inputs.length).map (·.boundName) ++
    (c.body.hookCalls.filter isRouterCall).map callVariable ++ c.body.state.map (·.setter) ++
    (c.body.refs.filter (· == madeHost)).map (·.name)

/-- All other names. -/
def keptNames (d : ComponentDecl) (c : ComponentArtifact) : List String :=
  (c.props.take d.inputs.length).map (·.boundName) ++
    (c.body.hookCalls.filter (!isRouterCall ·)).map callVariable ++ c.body.state.map (·.name) ++
    (c.body.refs.filter (!· == madeHost)).map (·.name) ++ c.body.constants.map (·.name) ++
    c.body.functions.map (·.name) ++ c.body.derived.map (·.name) ++ c.body.memos.map (·.name)

/-- Once the props are taken apart, each name of the scope is kept or derived. -/
theorem scopeNames_perm (d : ComponentDecl) {c : ComponentArtifact} (whole : c.destructures = true) :
    c.scopeNames.Perm (keptNames d c ++ derivedNames d c) := by
  have props : ((c.props.take d.inputs.length).map (·.boundName) ++
      (c.props.drop d.inputs.length).map (·.boundName)) = c.props.map (·.boundName) := by
    rw [← List.map_append, List.take_append_drop]
  have calls := (List.filter_append_perm isRouterCall c.body.hookCalls).map callVariable
  have refs := (List.filter_append_perm (· == madeHost) c.body.refs).map (·.name)
  rw [List.map_append] at calls refs
  apply List.perm_iff_count.mpr
  intro name
  have inProps := congrArg (List.count name) props
  have inCalls := calls.count_eq name
  have inRefs := refs.count_eq name
  simp only [List.count_append] at inProps inCalls inRefs
  simp only [ComponentArtifact.scopeNames, whole, if_true, FunctionBody.variables, keptNames,
    derivedNames, List.count_append]
  omega

/-! ### Names of a class -/

/-- An input is bound to its own name, whatever it is called from outside. -/
theorem inputProp_boundName {i : InputProp} (named : i.name ≠ "") :
    (inputProp i).boundName = i.name := by
  obtain ⟨name, type, optional, outerName, default, isSetter⟩ := i
  simp only [PropField.boundName, inputProp, InputProp.publicName, publicName, present] at named ⊢
  cases outerName with
  | none => simp
  | some outer =>
      by_cases blank : outer = ""
      · simp [blank]
      · by_cases same : outer = name
        · simp [same, named]
        · simp [blank, same, named]

namespace Model

/-- Every field has one of the three roles. -/
theorem roles_perm (roles : List FieldRole) :
    ((roles.filterMap FieldRole.state?).map (·.name) ++ (roles.filterMap FieldRole.ref?).map (·.name) ++
      (roles.filterMap FieldRole.constant?).map (·.name)).Perm (roles.map FieldRole.name) := by
  induction roles with
  | nil => exact .nil
  | cons role roles ih =>
      apply List.perm_iff_count.mpr
      intro name
      have rest := ih.count_eq name
      simp only [List.count_append] at rest
      cases role with
      | state c | ref c | constant c =>
          simp only [List.filterMap_cons, FieldRole.state?, FieldRole.ref?, FieldRole.constant?,
            FieldRole.name, List.map_cons, List.count_append, List.count_cons]
          omega

theorem Models.cells_perm {d : DeclBase} {mutated skip : List String} {m : ModelBase}
    (h : Models index d mutated skip m) :
    (m.state.map (·.name) ++ m.refs.map (·.name) ++ m.constants.map (·.name)).Perm
      (d.fields.map (·.name)) := by
  have names : (fieldRoles d mutated).map FieldRole.name = d.fields.map (·.name) := by
    simp [fieldRoles, fieldRole_name, Function.comp_def]
  rw [h.state, h.refs, h.constants, ← names]
  exact roles_perm _

end Model

/-! ### Names of dependencies -/

theorem callVariable_eq {call name : String} (declares : Members.Declares call name)
    (word : name.toList.all Pattern.isName = true) : callVariable call = name := by
  obtain ⟨c, ends, rest, text⟩ := declares
  have stops : Pattern.isName c = false := by
    rcases ends with rfl | rfl <;> rfl
  have cut : call.toList.drop 6 = name.toList ++ c :: rest := by
    rw [text]
    simp
  have plain : (name.toList ++ c :: rest).head? ≠ some '[' := by
    cases letters : name.toList with
    | nil => rcases ends with rfl | rfl <;> simp
    | cons first letters' =>
        rw [letters, List.all_cons, Bool.and_eq_true] at word
        intro bracket
        rw [List.cons_append, List.head?_cons, Option.some_inj] at bracket
        rw [bracket] at word
        cases word.1
  simp only [callVariable, cut]
  rw [if_neg plain, List.takeWhile_append_of_pos (List.all_eq_true.mp word),
    List.takeWhile_cons_of_neg (by simp [stops]), List.append_nil, String.ofList_toList]

/-- What stands for a dependency declares at most its name, the router apart. -/
theorem Members.Provides.names {elementRefs : Table String} {present : List String} {dep : Injected}
    {r : List String × List RefDecl} (h : Provides elementRefs present dep r)
    (own : (elementRefs.get? dep.name).getD dep.name = dep.name)
    (word : dep.name.toList.all Pattern.isName = true) :
    ((r.1.filter (!isRouterCall ·)).map callVariable ++ r.2.map (·.name)).Sublist [dep.name] := by
  cases h with
  | @value call _ declares =>
      have kept : ((List.filter (!isRouterCall ·) [call]).map callVariable).Sublist [dep.name] := by
        rw [← callVariable_eq declares word]
        exact (List.filter_sublist (l := [call])).map callVariable
      simpa only [List.map_nil, List.append_nil] using kept
  | @router calls _ _ all =>
      have none : calls.filter (!isRouterCall ·) = [] := by
        simpa [isRouterCall, List.filter_eq_nil_iff] using all
      simp [none]
  | element _ _ named _ => simp [named, own]
  | given _ _ _ => simp

theorem injectedElements_own (m : ModelBase) (name : String) :
    ((injectedElements m id).get? name).getD name = name := by
  have entries : ∀ entry ∈ injectedElements m id, entry.2 = entry.1 := by
    unfold injectedElements
    refine List.foldlRecOn _ _ (motive := fun t : Table String => ∀ entry ∈ t, entry.2 = entry.1)
      (by simp) ?_
    intro t all dep _ entry mem
    rcases Table.mem_set mem with rfl | old
    · rfl
    · exact all entry old
  cases found : (injectedElements m id).get? name with
  | none => rfl
  | some value => exact entries _ (Table.mem_of_get? found)

theorem count_found_le {elementRefs : Table String} {present : List String} {deps : List Injected}
    {found : List (List String × List RefDecl)}
    (h : List.Forall₂ (Members.Provides elementRefs present) deps found)
    (own : ∀ name, (elementRefs.get? name).getD name = name)
    (words : ∀ dep ∈ deps, dep.name.toList.all Pattern.isName = true) (name : String) :
    (((found.flatMap (·.1)).filter (!isRouterCall ·)).map callVariable).count name +
      ((found.flatMap (·.2)).map (·.name)).count name ≤ (deps.map (·.name)).count name := by
  induction h with
  | nil => simp
  | @cons dep r deps found provides _ ih =>
      have here := (provides.names (own dep.name) (words dep List.mem_cons_self)).count_le name
      have rest := ih fun dep hd => words dep (List.mem_cons_of_mem _ hd)
      simp only [List.flatMap_cons, List.filter_append, List.map_append, List.map_cons,
        List.count_append, List.count_cons, List.count_nil] at here ⊢
      omega

/-! ### Names of a component -/

/-- Everything a model declares is a member. -/
theorem declared_subset_members (order : NameOrder) (m : ModelBase) (props : List String)
    (outputs elementRefs : Table String) :
    props ++ m.state.map (·.name) ++ m.refs.map (·.name) ++ m.constants.map (·.name) ++
      m.methods.map (·.name) ++ m.getters.map (·.name) ++ m.dependencies.map (·.name) ⊆
      (Members.context order m props outputs elementRefs).members := by
  intro name h
  have state (stored : name ∈ m.state.map (·.name)) :=
    Table.mem_keys_foldl_set StateCell.name StateCell.setter m.state (t := []) (.inl stored)
  have dependencies (stored : name ∈ m.dependencies.map (·.name)) :=
    Table.mem_keys_foldl_set Injected.name id m.dependencies (t := []) (.inl stored)
  simp only [Members.context, List.mem_eraseDups, List.mem_append] at h ⊢
  rcases h with (((((h | h) | h) | h) | h) | h) | h
  · simp only [h, true_or]
  · simp only [state h, true_or, or_true]
  · simp only [h, true_or, or_true]
  · simp only [h, true_or, or_true]
  · simp only [h, true_or, or_true]
  · simp only [h, true_or, or_true]
  · exact .inr (dependencies h)

/-- The members of a class: every input has a name, and dependencies are named by words. -/
structure ComponentDecl.Named (d : ComponentDecl) : Prop where
  distinct : d.memberNames.Nodup
  inputs : ∀ i ∈ d.inputs, i.name ≠ ""
  dependencies : ∀ dep ∈ d.dependencies, dep.name.toList.all Pattern.isName = true

theorem Model.Models.dependencyNames {d : DeclBase} {mutated skip : List String} {m : ModelBase}
    (h : Model.Models index d mutated skip m) :
    m.dependencies.map (·.name) = d.dependencies.map (·.name) := by
  have each := h.dependencies
  generalize m.dependencies = injected at each ⊢
  generalize d.dependencies = deps at each ⊢
  induction each with
  | nil => rfl
  | cons resolves _ ih => rw [List.map_cons, List.map_cons, resolves.name, ih]

section

variable {decl : ComponentDecl} {m : ComponentModel} {c : ComponentArtifact}

theorem inputNames_eq (of : Model.ComponentOf index decl m) (writes : WritesComponent index order m c)
    (named : ∀ i ∈ decl.inputs, i.name ≠ "") :
    (c.props.take decl.inputs.length).map (·.boundName) = decl.inputs.map (·.name) := by
  have first : c.props.take decl.inputs.length = decl.inputs.map inputProp := by
    rw [writes.props, componentProps, of.inputs, List.append_assoc, List.take_append_of_le_length]
    · exact List.take_of_length_le (by simp)
    · simp
  rw [first, List.map_map]
  exact List.map_congr_left fun i hi => inputProp_boundName (named i hi)

/-- What is kept declares no more than the members of the class and what the template makes. -/
theorem count_kept_le (of : Model.ComponentOf index decl m) (writes : WritesComponent index order m c)
    (named : decl.Named) {x : Additions}
    (w : Written m.toModelBase (componentNames order m) x c.body) (additions : ComponentAdditions order m x)
    (name : String) :
    (keptNames decl c).count name ≤ (m.inputs.map (·.name)).count name +
      (m.state.map (·.name)).count name + (m.refs.map (·.name)).count name +
      (m.constants.map (·.name)).count name + (m.methods.map (·.name)).count name +
      (m.getters.map (·.name)).count name + (m.dependencies.map (·.name)).count name +
      (Draft.madeNames x.held x.awaited x.remembered).count name := by
  obtain ⟨mutated, base⟩ := of.base
  have words : ∀ dep ∈ m.dependencies, dep.name.toList.all Pattern.isName = true := by
    have all : ∀ n ∈ m.dependencies.map (·.name), n.toList.all Pattern.isName = true := by
      rw [base.dependencyNames]
      simpa using named.dependencies
    simpa using all
  have found := count_found_le additions.injects.found (injectedElements_own _) words name
  have extra : x.extra.filter (!isRouterCall ·) = [] := by
    rcases additions.injects.extra with none | navigation
    · rw [none]
      rfl
    · rw [navigation]
      decide
  have host : x.host.filter (!· == madeHost) = [] := by
    rcases additions.host with none | ⟨made, _⟩
    · rw [none]
      rfl
    · rw [made]
      decide
  have fewer (rs : List RefDecl) :
      ((rs.filter (!· == madeHost)).map (·.name)).count name ≤ (rs.map (·.name)).count name :=
    (List.filter_sublist.map _).count_le name
  have injected := fewer (x.found.flatMap (·.2))
  have own := fewer (m.refs.map (·.decl (componentNames order m)))
  have held := fewer x.held
  rw [keptNames, inputNames_eq of writes named.inputs, w.hookCalls, w.state, w.refs, w.constants,
    w.functions, w.derived, w.memos, additions.tracked, of.inputs]
  simp only [List.filter_append, extra, host, Draft.madeNames, List.map_append, List.count_append,
    List.append_nil, List.map_map, Function.comp_def, StateCell.decl_name, RefCell.decl_name,
    ConstantCell.decl_name, GetterModel.decl_name] at injected own held found ⊢
  omega

theorem keptNames_nodup (of : Model.ComponentOf index decl m) (writes : WritesComponent index order m c)
    (named : decl.Named) : (keptNames decl c).Nodup := by
  obtain ⟨x, w, additions⟩ := writes.body
  obtain ⟨mutated, base⟩ := of.base
  apply List.nodup_iff_count.mpr
  intro name
  have kept := count_kept_le of writes named w additions name
  have cells := base.cells_perm.count_eq name
  have methods := base.methods.count_le name
  have members := List.nodup_iff_count.mp named.distinct name
  rw [ComponentDecl.memberNames, ← base.dependencyNames] at members
  rw [of.inputs] at kept
  simp only [List.count_append] at cells methods members
  by_cases made : name ∈ Draft.madeNames x.held x.awaited x.remembered
  · -- what the template makes is no member, so that only the made name counts
    have once := List.nodup_iff_count.mp additions.nodup name
    have absent := List.count_eq_zero.mpr fun declared => additions.free name made
      (List.mem_append_left _ (List.mem_append_left _ (declared_subset_members _ _ _ _ _ declared)))
    simp only [List.count_append, of.inputs] at absent
    omega
  · have none := List.count_eq_zero.mpr made
    omega

/-- A name that is derived from an output or from a field, or one that is always the same. -/
def ComponentDecl.DerivesName (d : ComponentDecl) (name : String) : Prop :=
  name ∈ d.outputs.map (fun o => Naming.callbackPropName o.publicName) ∨
    name ∈ d.fields.map (fun f => Naming.setterName f.name) ∨
    name ∈ ["children", "navigate", "location", "params", "searchParams", "hostRef"]

theorem derivedNames_derived (of : Model.ComponentOf index decl m)
    (writes : WritesComponent index order m c) : ∀ name ∈ derivedNames decl c, decl.DerivesName name := by
  obtain ⟨x, w, additions⟩ := writes.body
  obtain ⟨mutated, base⟩ := of.base
  have props : c.props.drop decl.inputs.length = (componentProps m).drop (m.inputs.map inputProp).length := by
    rw [writes.props, of.inputs, List.length_map]
  have callback (texts : List String) (o : OutputProp) :
      (outputProp texts o).boundName = Naming.callbackPropName o.publicName := rfl
  intro name h
  simp only [derivedNames, List.mem_append] at h
  rcases h with ((h | h) | h) | h
  · rw [props, componentProps, List.append_assoc, List.drop_left, List.map_append, List.mem_append,
      List.map_map, of.outputs] at h
    rcases h with h | h
    · exact .inl h
    · refine .inr (.inr ?_)
      split at h
      · rw [List.map_singleton, List.mem_singleton] at h
        rw [h]
        decide
      · cases h
  · obtain ⟨call, hc, rfl⟩ := List.mem_map.mp h
    have router : call ∈ Members.routerCalls := by
      simpa [isRouterCall] using (List.mem_filter.mp hc).2
    have all : ∀ call ∈ Members.routerCalls,
        callVariable call ∈ ["children", "navigate", "location", "params", "searchParams", "hostRef"] := by
      decide +kernel
    exact .inr (.inr (all call router))
  · rw [w.state, additions.tracked, List.append_nil, List.map_map] at h
    obtain ⟨cell, hcell, rfl⟩ := List.mem_map.mp h
    have field : cell.name ∈ decl.fields.map (·.name) := by
      apply base.cells_perm.mem_iff.mp
      simp only [List.mem_append, List.mem_map]
      exact .inl (.inl ⟨cell, hcell, rfl⟩)
    obtain ⟨f, hf, same⟩ := List.mem_map.mp field
    refine .inr (.inl (List.mem_map.mpr ⟨f, hf, ?_⟩))
    rw [same]
    rfl
  · obtain ⟨r, hr, rfl⟩ := List.mem_map.mp h
    have host : r = madeHost := by
      simpa using (List.mem_filter.mp hr).2
    rw [host]
    exact .inr (.inr (by decide))

end

/-! ### Clashes -/

/-- The component of a class is written from a model of it, or it is a stub with an empty body. -/
theorem component_modules_of {Q : UnitModel → Prop} (sound : SymbolIndex.Sound ds index) {w : Work}
    {decl : ComponentDecl} (known : (Model.build index (.component decl)).Ensures Q)
    {as : List Artifact} {sink : Sink} {c : ComponentArtifact}
    (h : (WorkItem.declaration (.component decl)).modules index w order = .ok (as, sink))
    (mem : .component c ∈ as) :
    (∃ m, Model.ComponentOf index decl m ∧ Q (.component m) ∧ WritesComponent index order m c) ∨
      present c.stubReason = true ∧ c.body = {} := by
  refine WorkItem.declaration_modules_of
    (P := fun a => ∀ c, a = .component c →
      (∃ m, Model.ComponentOf index decl m ∧ Q (.component m) ∧ WritesComponent index order m c) ∨
        present c.stubReason = true ∧ c.body = {})
    sound known ?_ ?_ ?_ h _ mem c rfl
  · simp [Support.modules]
  · rintro m a kind reason made c rfl
    rw [stub, kind] at made
    cases made
    exact .inr ⟨by simpa [present] using reason, rfl⟩
  · intro m built more own
    cases built with
    | review _ _ _ _ _ _ => exact absurd rfl (own _)
    | component of =>
        refine (convertComponent_ensures sound of).mono ?_
        rintro as ⟨written, rfl, writes⟩ a mem c rfl
        rcases List.mem_cons.mp mem with same | style
        · cases same
          exact .inl ⟨_, of, more, writes⟩
        · unfold styleModules at style
          split at style <;> simp at style

theorem component_modules (sound : SymbolIndex.Sound ds index) {w : Work} {decl : ComponentDecl}
    {as : List Artifact} {sink : Sink} {c : ComponentArtifact}
    (h : (WorkItem.declaration (.component decl)).modules index w order = .ok (as, sink))
    (mem : .component c ∈ as) :
    (∃ m, Model.ComponentOf index decl m ∧ WritesComponent index order m c) ∨
      present c.stubReason = true ∧ c.body = {} := by
  have known := (Model.build_ensures sound (.component decl)).mono fun _ _ => trivial
  refine (component_modules_of sound known h mem).imp_left ?_
  rintro ⟨m, of, _, writes⟩
  exact ⟨m, of, writes⟩

/-- In the function of a component whose members have different names, two names clash only if one of
them is derived. -/
theorem scopeNames_nodup_iff (ds : List Declaration) (units : List String) (w : Work)
    {decl : ComponentDecl} (named : decl.Named) {as : List Artifact} {sink : Sink}
    (made : (WorkItem.declaration (.component decl)).modules (SymbolIndex.build ds units) w order =
      .ok (as, sink)) {c : ComponentArtifact} (mem : .component c ∈ as) :
    (c.destructures = false → c.scopeNames.Nodup) ∧
    (c.destructures = true →
      c.scopeNames.Perm (keptNames decl c ++ derivedNames decl c) ∧
      (keptNames decl c).Nodup ∧ (∀ name ∈ derivedNames decl c, decl.DerivesName name) ∧
      (c.scopeNames.Nodup ↔
        (derivedNames decl c).Nodup ∧ (keptNames decl c).Disjoint (derivedNames decl c))) := by
  constructor
  · intro stub
    have empty : c.body = {} := by
      simp only [ComponentArtifact.destructures, Bool.not_eq_false', Bool.and_eq_true] at stub
      exact eq_of_beq stub.2
    simp only [ComponentArtifact.scopeNames, stub, empty, FunctionBody.variables, List.map_nil,
      List.append_nil, Bool.false_eq_true, if_false]
    split
    · exact .nil
    · exact List.nodup_singleton _
  · intro whole
    rcases component_modules (SymbolIndex.build_sound ds units).1 made mem with
      ⟨m, of, writes⟩ | ⟨stub, empty⟩
    · have kept := keptNames_nodup of writes named
      have perm := scopeNames_perm decl whole
      refine ⟨perm, kept, derivedNames_derived of writes, ?_⟩
      rw [perm.nodup_iff, List.nodup_append', and_iff_right kept]
    · simp [ComponentArtifact.destructures, stub, empty] at whole

/-- A unit with a component that has members of every kind. -/
def counterUnit : Work where
  path := "counter.ts"
  items := [.declaration (.component
    { name := "Counter", sourcePath := "counter.ts"
      inputs := [{ name := "start", outerName := some "from" }]
      outputs := [{ name := "changed" }]
      fields := [{ name := "count", initializer := some "0" }, { name := "limit" }]
      methods := [{ name := "add", body := "this.count = this.count + 1;" },
        { name := "full", body := "return true;", accessor := some .get }]
      dependencies := [{ name := "log", typeName := "Log" }] })]

theorem scopeNames_nodup_counterUnit : ∃ decl c, counterUnit.Becomes decl c ∧ decl.Named ∧
    c.destructures = true ∧ c.scopeNames.Nodup := by
  have computed : (counterUnit.component?.any fun (decl, c) =>
      decide (decl.memberNames.Nodup ∧ (∀ i ∈ decl.inputs, i.name ≠ "") ∧
        (∀ dep ∈ decl.dependencies, dep.name.toList.all Pattern.isName = true) ∧
        c.destructures = true ∧ (keptNames decl c ++ derivedNames decl c).Nodup)) = true := by
    decide +kernel
  obtain ⟨⟨decl, c⟩, found, facts⟩ := (Option.any_eq_true _ _).mp computed
  obtain ⟨distinct, inputs, dependencies, whole, nodup⟩ := of_decide_eq_true facts
  have named : decl.Named := ⟨distinct, inputs, dependencies⟩
  obtain ⟨items, as, sink, made, mem⟩ := Work.becomes_of_component? found
  have scope := (scopeNames_nodup_iff _ _ counterUnit named made mem).2 whole
  exact ⟨decl, c, ⟨items, as, sink, made, mem⟩, named, whole,
    scope.2.2.2.mpr (List.nodup_append'.mp nodup).2⟩

/-- A component with a method that has the name of a setter. -/
def setterUnit : Work :=
  Work.prepare [] "a.ts" (some ("@Component(\x7btemplate: ''\x7d) class A \x7b " ++
    "x = 0; setX() \x7b this.x = 1; \x7d \x7d"))

theorem scopeNames_clash_setterUnit : ∃ decl c, setterUnit.Becomes decl c ∧ decl.Named ∧
    ¬ c.scopeNames.Nodup := by
  have computed : (setterUnit.component?.any fun (decl, c) =>
      decide (decl.memberNames.Nodup ∧ (∀ i ∈ decl.inputs, i.name ≠ "") ∧
        (∀ dep ∈ decl.dependencies, dep.name.toList.all Pattern.isName = true) ∧
        ¬ c.scopeNames.Nodup)) = true := by
    have read : setterUnit = _ := Work.prepare_chars _ _ (toList_ofList_append _ _)
    rw [read]
    decide +kernel
  obtain ⟨⟨decl, c⟩, found, facts⟩ := (Option.any_eq_true _ _).mp computed
  obtain ⟨distinct, inputs, dependencies, clash⟩ := of_decide_eq_true facts
  exact ⟨decl, c, Work.becomes_of_component? found, ⟨distinct, inputs, dependencies⟩, clash⟩

end ReactMigration
