import ReactMigration.Proofs.Models

/-!
The kinds of fields.

Seven tests decide what becomes of a field.  They are tried one after the other and overlap, but what comes out can
be said of each field by itself: every field goes to exactly one of the lists, each list holds its fields in
their order, and a plain field is state exactly if something changes it.
-/

namespace ReactMigration.Model

open ReactMigration.Text

variable {d : DeclBase} {mutated : List String} {f : FieldDecl}

/-! ### The tests -/

/-- What a field starts with: its initializer, or what the constructor assigns to it first. -/
def startText (d : DeclBase) (f : FieldDecl) : Option String :=
  f.initializer.orElse fun _ => (constructorParts d).1.get? f.name

/-- A field that starts with a new subject. -/
def isSubject (d : DeclBase) (f : FieldDecl) : Bool :=
  (subjectPattern.lead? ((startText d f).getD "")).isSome

/-- A field that the template changes, or a method other than the constructor. -/
def isChanged (d : DeclBase) (mutated : List String) (f : FieldDecl) : Bool :=
  mutated.contains f.name || mutatedInMethods d f.name

/-- A field of the instance that no query fills, and that holds neither a subject nor a subscription. -/
structure IsPlain (d : DeclBase) (f : FieldDecl) : Prop where
  member : f.static = false
  unqueried : (viewQuery? f).isNone = true
  noSubject : isSubject d f = false
  noSubscription : holdsSubscription d f = false

def isState (d : DeclBase) (mutated : List String) (f : FieldDecl) : Bool :=
  !f.static && (viewQuery? f).isNone && (isSubject d f || (!holdsSubscription d f && isChanged d mutated f))

def isRef (d : DeclBase) (f : FieldDecl) : Bool :=
  !f.static && ((viewQuery? f).isSome || (!isSubject d f && holdsSubscription d f))

def isConstant (d : DeclBase) (mutated : List String) (f : FieldDecl) : Bool :=
  f.static ||
    ((viewQuery? f).isNone && !isSubject d f && !holdsSubscription d f && !isChanged d mutated f)

/-- Every field is of one kind, and of no other. -/
theorem kind_unique (d : DeclBase) (mutated : List String) (f : FieldDecl) :
    (isState d mutated f = true ∧ isRef d f = false ∧ isConstant d mutated f = false) ∨
      (isState d mutated f = false ∧ isRef d f = true ∧ isConstant d mutated f = false) ∨
        (isState d mutated f = false ∧ isRef d f = false ∧ isConstant d mutated f = true) := by
  unfold isState isRef isConstant
  rw [← Option.not_isSome]
  cases f.static <;> cases (viewQuery? f).isSome <;> cases isSubject d f <;> cases holdsSubscription d f <;>
    cases isChanged d mutated f <;> decide

/-! ### The cells -/

/-- The state cell of a field. -/
structure StateOf (d : DeclBase) (mutated : List String) (f : FieldDecl) (c : StateCell) : Prop where
  name : c.name = f.name
  isPublic : c.isPublic = (f.visibility == .anywhere)
  subject : c.origin = .subject ↔ isSubject d f = true
  twoWay : c.origin = .twoWay ↔ isSubject d f = false ∧ f.name ∈ mutated
  start : isSubject d f = false → c.type = f.type ∧ c.initial = startText d f

/-- The ref of a field. -/
structure RefOf (d : DeclBase) (f : FieldDecl) (c : RefCell) : Prop where
  name : c.name = f.name
  type : c.type = f.type
  element : c.element = (viewQuery? f).isSome
  start : c.element = false → c.initial = startText d f

/-- The constant of a field. -/
structure ConstantOf (d : DeclBase) (f : FieldDecl) (c : ConstantCell) : Prop where
  name : c.name = f.name
  type : c.type = f.type
  value : c.value = startText d f
  static : c.static = f.static
  isPublic : c.isPublic = (f.visibility == .anywhere)

/-- A field with a cell of its kind. -/
inductive Fits (d : DeclBase) (mutated : List String) (f : FieldDecl) : FieldRole → Prop
  | state {c : StateCell} (kind : isState d mutated f = true) (cell : StateOf d mutated f c) : Fits d mutated f (.state c)
  | ref {c : RefCell} (kind : isRef d f = true) (cell : RefOf d f c) : Fits d mutated f (.ref c)
  | constant {c : ConstantCell} (kind : isConstant d mutated f = true) (cell : ConstantOf d f c) :
      Fits d mutated f (.constant c)

theorem fieldRole_fits (d : DeclBase) (mutated : List String) (f : FieldDecl) :
    Fits d mutated f (fieldRole d (constructorParts d).1 mutated f) := by
  unfold fieldRole
  extract_lets initial isPublic
  have begins : initial = startText d f := rfl
  split
  · rename_i static
    exact .constant (by simp [isConstant, static]) ⟨rfl, rfl, rfl, static.symm, rfl⟩
  · rename_i member
    have member : f.static = false := Bool.eq_false_iff.mpr member
    split
    · rename_i query
      exact .ref (by simp [isRef, member, query]) ⟨rfl, rfl, query.symm, nofun⟩
    · rename_i unqueried
      have unqueried : viewQuery? f = none := by simpa using unqueried
      split
      · rename_i found
        have subject : isSubject d f = true := by rw [isSubject, ← begins, found]; rfl
        exact .state (by simp [isState, member, subject, unqueried])
          ⟨rfl, rfl, by simp [subject], by simp [subject], by simp [subject]⟩
      · rename_i unfound
        have noSubject : isSubject d f = false := by rw [isSubject, ← begins, unfound]; rfl
        split
        · rename_i holds
          exact .ref (by simp [isRef, member, noSubject, holds]) ⟨rfl, rfl, by simp [unqueried], fun _ => rfl⟩
        · rename_i noSubscription
          split
          · rename_i listed
            have changed : isChanged d mutated f = true := by rw [isChanged, listed, Bool.true_or]
            exact .state (by simp [isState, member, unqueried, noSubscription, changed])
              ⟨rfl, rfl, by simp [noSubject], by simpa [noSubject] using listed, fun _ => ⟨rfl, rfl⟩⟩
          · rename_i unlisted
            split
            · rename_i written
              have changed : isChanged d mutated f = true := by rw [isChanged, written, Bool.or_true]
              exact .state (by simp [isState, member, unqueried, noSubscription, changed])
                ⟨rfl, rfl, by simp [noSubject], by simpa [noSubject] using unlisted, fun _ => ⟨rfl, rfl⟩⟩
            · rename_i unwritten
              have unchanged : isChanged d mutated f = false := by
                rw [isChanged, Bool.eq_false_iff.mpr unlisted, Bool.eq_false_iff.mpr unwritten, Bool.or_false]
              exact .constant (by simp [isConstant, unqueried, noSubject, noSubscription, unchanged])
                ⟨rfl, rfl, rfl, member.symm, rfl⟩

theorem fieldRoles_fits (d : DeclBase) (mutated : List String) :
    List.Forall₂ (Fits d mutated) d.fields (fieldRoles d mutated) := by
  rw [fieldRoles, List.forall₂_map_right_iff, List.forall₂_same]
  exact fun f _ => fieldRole_fits d mutated f

/-! ### The lists -/

/-- Each list takes the fields of its kind in their order. -/
theorem fits_lists {fields : List FieldDecl} {roles : List FieldRole} (fits : List.Forall₂ (Fits d mutated) fields roles) :
    List.Forall₂ (StateOf d mutated) (fields.filter (isState d mutated)) (roles.filterMap FieldRole.state?) ∧
      List.Forall₂ (RefOf d) (fields.filter (isRef d)) (roles.filterMap FieldRole.ref?) ∧
        List.Forall₂ (ConstantOf d) (fields.filter (isConstant d mutated)) (roles.filterMap FieldRole.constant?) := by
  induction fits with
  | nil => exact ⟨.nil, .nil, .nil⟩
  | @cons f role fields roles here _ ih =>
      obtain ⟨state, ref, constant⟩ := ih
      have unique := kind_unique d mutated f
      cases here with
      | state kind cell =>
          obtain ⟨noRef, noConstant⟩ : isRef d f = false ∧ isConstant d mutated f = false := by
            simpa [kind] using unique
          simp only [List.filter_cons, kind, noRef, noConstant]
          exact ⟨.cons cell state, ref, constant⟩
      | ref kind cell =>
          obtain ⟨noState, noConstant⟩ : isState d mutated f = false ∧ isConstant d mutated f = false := by
            simpa [kind] using unique
          simp only [List.filter_cons, kind, noState, noConstant]
          exact ⟨state, .cons cell ref, constant⟩
      | constant kind cell =>
          obtain ⟨noState, noRef⟩ : isState d mutated f = false ∧ isRef d f = false := by
            simpa [kind] using unique
          simp only [List.filter_cons, kind, noState, noRef]
          exact ⟨state, ref, .cons cell constant⟩

theorem length_kinds (d : DeclBase) (mutated : List String) (fields : List FieldDecl) :
    (fields.filter (isState d mutated)).length + (fields.filter (isRef d)).length +
      (fields.filter (isConstant d mutated)).length = fields.length := by
  induction fields with
  | nil => rfl
  | cons f fields ih =>
      obtain ⟨s, r, c⟩ | ⟨s, r, c⟩ | ⟨s, r, c⟩ := kind_unique d mutated f
      all_goals
        simp only [List.filter_cons, s, r, c, if_true, Bool.false_eq_true, if_false, List.length_cons]
        omega

/-- The subjects among the state cells are the subjects among the fields. -/
theorem subjects_eq {fields : List FieldDecl} {cells : List StateCell}
    (of : List.Forall₂ (StateOf d mutated) fields cells) :
    (cells.filter (·.origin == .subject)).map (·.name) = (fields.filter (isSubject d)).map (·.name) := by
  induction of with
  | nil => rfl
  | @cons f c fields cells here _ ih =>
      by_cases subject : isSubject d f = true
      · have origin : (c.origin == .subject) = true := beq_iff_eq.mpr (here.subject.mpr subject)
        simp only [List.filter_cons, origin, subject, if_true, List.map_cons, ih, here.name]
      · have origin : (c.origin == .subject) = false :=
          beq_eq_false_iff_ne.mpr fun same => subject (here.subject.mp same)
        simp only [List.filter_cons, origin, subject, Bool.false_eq_true, if_false, ih]

/-- Some method other than the constructor has a change of the field in its body. -/
def IsWritten (d : DeclBase) (f : FieldDecl) : Prop :=
  ∃ method ∈ d.methods, method.name ≠ "constructor" ∧ (mutationPattern f.name).occurs method.body = true

theorem isChanged_iff : isChanged d mutated f = true ↔ f.name ∈ mutated ∨ IsWritten d f := by
  simp [isChanged, mutatedInMethods, IsWritten]

theorem isState_plain (plain : IsPlain d f) : isState d mutated f = isChanged d mutated f := by
  simp only [isState, plain.member, plain.unqueried, plain.noSubject, plain.noSubscription, Bool.not_false,
    Bool.true_and, Bool.false_or]

/-- Classifying the fields of a class puts each of them into exactly one list.  The lists hold their fields in order,
their lengths add up, the subjects are the state cells that come from subjects, and a plain field is state exactly
if the template changes it or a method other than the constructor does. -/
theorem classifyFields_partition (d : DeclBase) (m : ModelBase) (mutated : List String) :
    let sorted := classifyFields d m mutated
    List.Forall₂ (StateOf d mutated) (d.fields.filter (isState d mutated)) sorted.state ∧
      List.Forall₂ (RefOf d) (d.fields.filter (isRef d)) sorted.refs ∧
      List.Forall₂ (ConstantOf d) (d.fields.filter (isConstant d mutated)) sorted.constants ∧
      (∀ f, (isState d mutated f = true ∧ isRef d f = false ∧ isConstant d mutated f = false) ∨
        (isState d mutated f = false ∧ isRef d f = true ∧ isConstant d mutated f = false) ∨
          (isState d mutated f = false ∧ isRef d f = false ∧ isConstant d mutated f = true)) ∧
      sorted.state.length + sorted.refs.length + sorted.constants.length = d.fields.length ∧
      sorted.subjects = (sorted.state.filter (·.origin == .subject)).map (·.name) ∧
      sorted.subjects = ((d.fields.filter (isState d mutated)).filter (isSubject d)).map (·.name) ∧
      (∀ f, IsPlain d f → (isState d mutated f = true ↔ f.name ∈ mutated ∨ IsWritten d f)) := by
  intro sorted
  obtain ⟨state, refs, constants⟩ := fits_lists (fieldRoles_fits d mutated)
  refine ⟨state, refs, constants, kind_unique d mutated, ?_, rfl, subjects_eq state, fun f plain => ?_⟩
  · rw [← length_kinds d mutated d.fields, state.length_eq, refs.length_eq, constants.length_eq]
    rfl
  · rw [isState_plain plain, isChanged_iff]

/-- A class with a field for each of the tests, two of them decided by the constructor. -/
def pollClass : DeclBase where
  name := "Poll"
  sourcePath := "poll.ts"
  fields :=
    [{ name := "step", static := true, initializer := some "1" },
     { name := "view", decorators := [{ name := "ViewChild" }] },
     { name := "ticks$", initializer := some "new Subject<number>()" }, { name := "ready" },
     { name := "sub", type := some "Subscription" }, { name := "label" }, { name := "count" },
     { name := "limit", initializer := some "10" }]
  methods :=
    [{ name := "constructor", body := "this.ready = new BehaviorSubject(false); this.limit = 20;"
       statements := [{ kind := "expression_statement", text := "this.ready = new BehaviorSubject(false);" }] },
     { name := "tick", body := "if (this.count < this.limit) this.count += 1;" }]

/-- The counter is state since a method changes it, the limit is not since only the constructor does. -/
theorem classifyFields_partition_poll :
    let sorted := classifyFields pollClass { name := "Poll", sourcePath := "poll.ts" } ["label"]
    let count : FieldDecl := { name := "count" }
    let limit : FieldDecl := { name := "limit", initializer := some "10" }
    sorted.state.map (·.name) = ["ticks$", "ready", "label", "count"] ∧ sorted.subjects = ["ticks$", "ready"] ∧
      (IsPlain pollClass count ∧ isState pollClass ["label"] count = true) ∧
      (IsPlain pollClass limit ∧ isState pollClass ["label"] limit = false) := by
  intro sorted count limit
  have plain : IsPlain pollClass count := ⟨by decide +kernel, by decide +kernel, by decide +kernel, by decide +kernel⟩
  have plain' : IsPlain pollClass limit := ⟨by decide +kernel, by decide +kernel, by decide +kernel, by decide +kernel⟩
  obtain ⟨-, -, -, -, -, -, -, changed⟩ :=
    classifyFields_partition pollClass { name := "Poll", sourcePath := "poll.ts" } ["label"]
  refine ⟨by decide +kernel, by decide +kernel, ⟨plain, (changed count plain).mpr (.inr ?_)⟩, plain', ?_⟩
  · exact ⟨_, List.mem_cons_of_mem _ List.mem_cons_self, by decide, by decide +kernel⟩
  · refine Bool.eq_false_iff.mpr fun state => ?_
    obtain listed | ⟨method, mem, other, written⟩ := (changed limit plain').mp state
    · exact absurd listed (by decide)
    · obtain rfl | rfl : method = _ ∨ method = _ := by simpa [pollClass] using mem
      · exact other rfl
      · exact absurd written (by decide +kernel)

end ReactMigration.Model
