import Mathlib.Data.List.Basic
import ReactMigration.Declaration.Members
import ReactMigration.Proofs.ParsedFiles

/-!
Which members of a class become its inputs and outputs.

A decorator belongs to the member behind it, or to the member that holds it.  The walk over a class
body hands waiting decorators to the next method or field and collects what that member adds.  Here
this is compared with what the members declare: an input for every field and accessor that is marked
as one, a pair of accessors counting once, and an output for every field that is marked as one.
-/

namespace ReactMigration.Declaration

open ReactMigration.TypeScript (Source Node)

/-! ### Members with their decorators -/

/-- A member of a class body and its decorators. -/
structure Member where
  node : Node
  decorators : List Node

/-- What may stand between a member and its decorators: punctuation and comments. -/
def isGap (n : Node) : Bool :=
  !n.kind.isNamed || n.kind == .comment

/-- The members of a class body in order; decorators belong to the member behind them. -/
def membersFrom (waiting : List Node) : List Node → List Member
  | [] => []
  | n :: ns =>
      if n.kind == .decorator then membersFrom (waiting ++ [n]) ns
      else if isGap n then membersFrom waiting ns
      else ⟨n, waiting ++ n.childrenOf .decorator⟩ :: membersFrom [] ns

/-- The members of a class. -/
def classMembers (classNode : Node) : List Member :=
  match classNode.inRole? .body with
  | some body => membersFrom [] body.children
  | none => []

/-- The decorators of a name, evaluated. -/
def decoratorsNamed (s : Source) (name : String) (decorators : List Node) : List DecoratorInfo :=
  (decorators.map (decoratorInfo s)).filter (·.name == name)

namespace Member

def name (s : Source) (m : Member) : String :=
  s.textOf (m.node.inRole? .name)

def isMethod (m : Member) : Bool :=
  m.node.kind == .methodDefinition

def isField (m : Member) : Bool :=
  m.node.kind == .fieldDefinition

/-- A member without a body or a value, such as an overload or an abstract method. -/
def isBare (m : Member) : Bool :=
  !m.isMethod && !m.isField

def isSetter (m : Member) : Bool :=
  m.isMethod && !m.node.hasToken "get" && m.node.hasToken "set"

def isGetter (m : Member) : Bool :=
  m.isMethod && m.node.hasToken "get"

/-- The input decorators. -/
def inputMarks (s : Source) (m : Member) : List DecoratorInfo :=
  decoratorsNamed s "Input" m.decorators

/-- The output decorators. -/
def outputMarks (s : Source) (m : Member) : List DecoratorInfo :=
  decoratorsNamed s "Output" m.decorators

/-- The input that a decorator declares: the name of the member and the outer name. -/
def inputOf (s : Source) (m : Member) (mark : DecoratorInfo) : String × Option String :=
  (m.name s, (inputOptions mark).1)

/-- The output that a decorator declares: the name of the member and the outer name. -/
def outputOf (s : Source) (m : Member) (mark : DecoratorInfo) : String × Option String :=
  (m.name s, (DecoratorInfo.first mark .none).str?)

/-- Whether the setter of a name is marked as an input. -/
def setterMarked (s : Source) (ms : List Member) (name : String) : Bool :=
  ms.any fun m => m.isSetter && m.name s == name && !(m.inputMarks s).isEmpty

/-- What a member declares as inputs: one input for its first mark.  Of a pair of accessors the
getter counts only if the setter is not marked. -/
def declaredInputs (s : Source) (ms : List Member) (m : Member) : List (String × Option String) :=
  if m.isField || m.isSetter || m.isGetter && !setterMarked s ms (m.name s) then
    ((m.inputMarks s).head?.map (m.inputOf s)).toList
  else []

/-- What a member declares as outputs: one output for the first mark of a field. -/
def declaredOutputs (s : Source) (m : Member) : List (String × Option String) :=
  if m.isField then ((m.outputMarks s).head?.map (m.outputOf s)).toList else []

end Member

/-- Inputs by name and outer name. -/
def inputKeys (inputs : List InputProp) : List (String × Option String) :=
  inputs.map fun i => (i.name, i.outerName)

/-- Outputs by name and outer name. -/
def outputKeys (outputs : List OutputProp) : List (String × Option String) :=
  outputs.map fun o => (o.name, o.outerName)

/-! ### What one member adds -/

namespace Member

/-- The inputs that are collected from a member: one for a marked field, one for each mark of a
setter. -/
def collectedInputs (s : Source) (m : Member) : List (String × Option String) :=
  if m.isField then ((m.inputMarks s).head?.map (m.inputOf s)).toList
  else if m.isSetter then (m.inputMarks s).map (m.inputOf s)
  else []

/-- The outputs that are collected from a member: one for a marked field that is no input. -/
def collectedOutputs (s : Source) (m : Member) : List (String × Option String) :=
  if m.isField && (m.inputMarks s).isEmpty then
    ((m.outputMarks s).head?.map (m.outputOf s)).toList
  else []

end Member

variable {s : Source} {m : Members} {n : Node} {decorators : List Node}

theorem find?_decoratorsNamed (name : String) :
    (decorators.map (decoratorInfo s)).find? (·.name == name) =
      (decoratorsNamed s name decorators).head? := by
  rw [decoratorsNamed, List.head?_filter]

theorem addField_inputs (field : n.kind = .fieldDefinition) :
    inputKeys (addField s m n decorators).inputs =
      inputKeys m.inputs ++ Member.collectedInputs s ⟨n, decorators⟩ := by
  have isField : Member.isField ⟨n, decorators⟩ = true := by simp [Member.isField, field]
  simp only [addField, find?_decoratorsNamed, Member.collectedInputs, isField, if_true,
    Member.inputMarks]
  cases (decoratorsNamed s "Input" decorators).head? with
  | some d => simp [inputKeys, Member.inputOf, Member.name]
  | none =>
      cases (decoratorsNamed s "Output" decorators).head? with
      | some d => simp
      | none =>
          simp only [Option.map_none, Option.toList_none, List.append_nil]
          split <;> rfl

theorem addField_outputs (field : n.kind = .fieldDefinition) :
    outputKeys (addField s m n decorators).outputs =
      outputKeys m.outputs ++ Member.collectedOutputs s ⟨n, decorators⟩ := by
  have isField : Member.isField ⟨n, decorators⟩ = true := by simp [Member.isField, field]
  simp only [addField, find?_decoratorsNamed, Member.collectedOutputs, isField, Bool.true_and,
    Member.inputMarks, Member.outputMarks]
  cases marks : decoratorsNamed s "Input" decorators with
  | cons d ds => simp
  | nil =>
      cases (decoratorsNamed s "Output" decorators).head? with
      | some d => simp [outputKeys, Member.outputOf, Member.name]
      | none =>
          simp only [List.head?_nil, List.isEmpty_nil, if_true, Option.map_none,
            Option.toList_none, List.append_nil]
          split <;> rfl

/-- The decorators of a method leave the outputs alone and add an input for each mark of a setter. -/
theorem foldl_applyMethodDecorator (method : MethodDecl) (infos : List DecoratorInfo) :
    (infos.foldl (applyMethodDecorator method) m).outputs = m.outputs ∧
    inputKeys (infos.foldl (applyMethodDecorator method) m).inputs = inputKeys m.inputs ++
      if method.accessor = some .set then
        (infos.filter (·.name == "Input")).map fun d => (method.name, (inputOptions d).1)
      else [] := by
  induction infos generalizing m with
  | nil => simp
  | cons d ds ih =>
      have step : (applyMethodDecorator method m d).outputs = m.outputs ∧
          inputKeys (applyMethodDecorator method m d).inputs = inputKeys m.inputs ++
            if method.accessor = some .set ∧ d.name = "Input" then
              [(method.name, (inputOptions d).1)] else [] := by
        unfold applyMethodDecorator
        by_cases input : d.name = "Input" <;> by_cases setter : method.accessor = some .set
        · simp [input, setter, inputKeys]
        all_goals
          simp only [input, setter, beq_iff_eq, Bool.and_eq_true, and_false, false_and, if_false]
          split <;> (try split) <;> simp
      rw [List.foldl_cons, ih.1, ih.2, step.1, step.2]
      refine ⟨rfl, ?_⟩
      by_cases setter : method.accessor = some .set <;> by_cases input : d.name = "Input" <;>
        simp [setter, input]

theorem addMethod_outputs :
    (addMethod s m n decorators).outputs = m.outputs :=
  (foldl_applyMethodDecorator _ _).1

theorem addMethod_inputs (method : n.kind = .methodDefinition) :
    inputKeys (addMethod s m n decorators).inputs =
      inputKeys m.inputs ++ Member.collectedInputs s ⟨n, decorators⟩ := by
  refine (foldl_applyMethodDecorator _ _).2.trans (congrArg _ ?_)
  have notField : Member.isField ⟨n, decorators⟩ = false := by simp [Member.isField, method]
  have isMethod : Member.isMethod ⟨n, decorators⟩ = true := by simp [Member.isMethod, method]
  simp only [methodOf, Member.collectedInputs, notField, Member.isSetter, isMethod, Bool.true_and,
    Bool.false_eq_true, if_false, Member.inputMarks, decoratorsNamed]
  by_cases get : n.hasToken "get" <;> by_cases set : n.hasToken "set" <;>
    simp [get, set, Member.inputOf, Member.name]

/-! ### The walk -/

/-- Whether two lists of decorators mark the same inputs and outputs. -/
def SameMarks (s : Source) (as bs : List Node) : Prop :=
  ∀ name ∈ ["Input", "Output"], decoratorsNamed s name as = decoratorsNamed s name bs

theorem SameMarks.append {as bs : List Node} (same : SameMarks s as bs) (cs : List Node) :
    SameMarks s (as ++ cs) (bs ++ cs) := by
  intro name known
  simp only [decoratorsNamed, List.map_append, List.filter_append]
  exact congrArg (· ++ _) (same name known)

theorem SameMarks.inputs {as bs : List Node} (same : SameMarks s as bs) :
    Member.collectedInputs s ⟨n, as⟩ = Member.collectedInputs s ⟨n, bs⟩ := by
  have marks := same "Input" (by simp)
  simp only [Member.collectedInputs, Member.inputMarks, marks]
  rfl

theorem SameMarks.outputs {as bs : List Node} (same : SameMarks s as bs) :
    Member.collectedOutputs s ⟨n, as⟩ = Member.collectedOutputs s ⟨n, bs⟩ := by
  have inputs := same "Input" (by simp)
  have outputs := same "Output" (by simp)
  simp only [Member.collectedOutputs, Member.inputMarks, Member.outputMarks, inputs, outputs]
  rfl

/-- Members that are passed over are not marked; their marks would go to the member behind them. -/
def MarksKept (s : Source) (ms : List Member) : Prop :=
  ∀ m ∈ ms, m.isBare = true → m.inputMarks s = [] ∧ m.outputMarks s = []

theorem collectMembers_keys {waiting pending : List Node} (same : SameMarks s pending waiting)
    (m : Members) (ns : List Node) (kept : MarksKept s (membersFrom waiting ns)) :
    inputKeys (collectMembers s pending m ns).inputs =
      inputKeys m.inputs ++ (membersFrom waiting ns).flatMap (Member.collectedInputs s) ∧
    outputKeys (collectMembers s pending m ns).outputs =
      outputKeys m.outputs ++ (membersFrom waiting ns).flatMap (Member.collectedOutputs s) := by
  induction ns generalizing waiting pending m with
  | nil => simp [collectMembers, membersFrom]
  | cons n ns ih =>
      rw [collectMembers]
      rw [membersFrom] at kept ⊢
      by_cases decorator : n.kind = .decorator
      · simp only [decorator, beq_self_eq_true, if_true] at kept ⊢
        exact ih (same.append [n]) m kept
      have notDecorator : (n.kind == .decorator) = false := by simpa using decorator
      simp only [notDecorator, Bool.false_eq_true, if_false] at kept ⊢
      have own := same.append (s := s) (n.childrenOf .decorator)
      by_cases gap : isGap n = true
      · -- neither a token nor a comment is a method or a field
        have passed : n.kind ≠ .methodDefinition ∧ n.kind ≠ .fieldDefinition := by
          constructor <;> rintro kind <;> simp [isGap, kind, TypeScript.Kind.isNamed] at gap
        simp only [gap, if_true, beq_iff_eq, passed.1, passed.2, if_false] at kept ⊢
        exact ih same m kept
      simp only [gap, if_false, Bool.false_eq_true] at kept ⊢
      have behind : MarksKept s (membersFrom [] ns) := fun m mem => kept m (.tail _ mem)
      have fresh : SameMarks s [] [] := fun _ _ => rfl
      rw [List.flatMap_cons, List.flatMap_cons, ← List.append_assoc, ← List.append_assoc]
      by_cases method : n.kind = .methodDefinition
      · have notField : Member.isField ⟨n, pending ++ n.childrenOf .decorator⟩ = false := by
          simp [Member.isField, method]
        simp only [method, beq_self_eq_true, if_true]
        rw [(ih fresh _ behind).1, (ih fresh _ behind).2, addMethod_inputs method, addMethod_outputs,
          own.inputs, ← own.outputs]
        simp [Member.collectedOutputs, notField]
      simp only [beq_iff_eq, method, if_false]
      by_cases field : n.kind = .fieldDefinition
      · simp only [field, if_true]
        rw [(ih fresh _ behind).1, (ih fresh _ behind).2, addField_inputs field,
          addField_outputs field, own.inputs, own.outputs]
        exact ⟨rfl, rfl⟩
      · -- a member without a body or a value; what waits goes on to the next one
        simp only [field, if_false]
        obtain ⟨noInput, noOutput⟩ := kept _ (.head _)
          (by simp [Member.isBare, Member.isMethod, Member.isField, method, field])
        have unmarked : SameMarks s pending [] := by
          intro name known
          rw [same name known]
          simp only [Member.inputMarks, Member.outputMarks, decoratorsNamed, List.map_append,
            List.filter_append, List.append_eq_nil_iff] at noInput noOutput
          rcases List.mem_cons.mp known with rfl | known
          · exact noInput.1
          · obtain rfl := List.mem_singleton.mp known
            exact noOutput.1
        rw [(ih unmarked _ behind).1, (ih unmarked _ behind).2]
        simp [Member.collectedInputs, Member.collectedOutputs, Member.isField, Member.isSetter,
          Member.isMethod, method, field]

/-! ### Collected and declared -/

/-- Pieces that are nowhere longer than others are the same once the wholes are. -/
theorem eq_of_flatMap_eq {α β : Type} {f g : α → List β} {l : List α}
    (le : ∀ a ∈ l, (f a).length ≤ (g a).length) (same : l.flatMap f = l.flatMap g) :
    ∀ a ∈ l, f a = g a := by
  have total : ∀ l : List α, (∀ a ∈ l, (f a).length ≤ (g a).length) →
      (l.flatMap f).length ≤ (l.flatMap g).length := by
    intro l le
    induction l with
    | nil => simp
    | cons a l ih =>
        simp only [List.flatMap_cons, List.length_append]
        exact Nat.add_le_add (le a (.head _)) (ih fun b mem => le b (.tail _ mem))
  induction l with
  | nil => simp
  | cons a l ih =>
      simp only [List.flatMap_cons] at same
      have lengths := congrArg List.length same
      simp only [List.length_append] at lengths
      have first := le a (.head _)
      have rest := total l fun b mem => le b (.tail _ mem)
      obtain ⟨head, tail⟩ := List.append_inj same (by omega)
      intro b mem
      rcases List.mem_cons.mp mem with rfl | mem
      · exact head
      · exact ih (fun c inside => le c (.tail _ inside)) tail b mem

namespace Member

variable {ms : List Member} {m : Member}

/-- A getter that is marked as an input while the setter of its name is not. -/
def LoneGetter (s : Source) (ms : List Member) (m : Member) : Prop :=
  m.isGetter = true ∧ m.inputMarks s ≠ [] ∧ setterMarked s ms (m.name s) = false

/-- A setter that is marked as an input more than once. -/
def MarkedAgain (s : Source) (m : Member) : Prop :=
  m.isSetter = true ∧ 1 < (m.inputMarks s).length

/-- A field that is marked as an input and as an output. -/
def MarkedBoth (s : Source) (m : Member) : Prop :=
  m.isField = true ∧ m.inputMarks s ≠ [] ∧ m.outputMarks s ≠ []

theorem not_isField_of_isSetter (setter : m.isSetter = true) : m.isField = false := by
  simp only [isSetter, isMethod, Bool.and_eq_true, beq_iff_eq] at setter
  simp [isField, setter.1.1]

theorem not_isSetter_of_isGetter (getter : m.isGetter = true) :
    m.isField = false ∧ m.isSetter = false := by
  simp only [isGetter, isMethod, Bool.and_eq_true, beq_iff_eq] at getter
  simp [isField, isSetter, getter.1, getter.2]

theorem collectedInputs_field (field : m.isField = true) :
    collectedInputs s m = declaredInputs s ms m := by
  simp [collectedInputs, declaredInputs, field]

theorem collectedInputs_setter (setter : m.isSetter = true) :
    collectedInputs s m = (m.inputMarks s).map (m.inputOf s) := by
  simp [collectedInputs, setter, not_isField_of_isSetter setter]

theorem declaredInputs_setter (setter : m.isSetter = true) :
    declaredInputs s ms m = ((m.inputMarks s).head?.map (m.inputOf s)).toList := by
  simp [declaredInputs, setter]

theorem collectedInputs_other (field : m.isField = false) (setter : m.isSetter = false) :
    collectedInputs s m = [] := by
  simp [collectedInputs, field, setter]

theorem declaredInputs_other (field : m.isField = false) (setter : m.isSetter = false) :
    declaredInputs s ms m = [] ↔ ¬ m.LoneGetter s ms := by
  simp only [declaredInputs, field, setter, Bool.or_self, Bool.false_or, LoneGetter]
  by_cases getter : m.isGetter = true <;> by_cases marked : setterMarked s ms (m.name s) = true <;>
    cases marks : m.inputMarks s <;> simp [getter, marked]

theorem length_declaredInputs_setter (setter : m.isSetter = true) :
    (declaredInputs s ms m).length ≤ (collectedInputs s m).length := by
  rw [collectedInputs_setter setter, declaredInputs_setter setter]
  cases m.inputMarks s <;> simp

theorem declaredInputs_eq_setter (setter : m.isSetter = true) :
    collectedInputs s m = declaredInputs s ms m ↔ ¬ m.MarkedAgain s := by
  rw [collectedInputs_setter setter, declaredInputs_setter setter, MarkedAgain, setter]
  cases m.inputMarks s with
  | nil => simp
  | cons mark marks => simp

theorem setterMarked_eq_false {name : String} :
    setterMarked s ms name = false ↔
      ∀ m ∈ ms, m.isSetter = true → m.name s = name → m.inputMarks s = [] := by
  simp [setterMarked]

/-- A lone getter is lost for good: neither a field nor a setter of its name stands for it. -/
theorem not_loneGetter (same : ms.flatMap (collectedInputs s) = ms.flatMap (declaredInputs s ms))
    (mem : m ∈ ms) : ¬ m.LoneGetter s ms := by
  rintro ⟨getter, marked, unset⟩
  let ofName (l : List (String × Option String)) := l.filter (·.1 == m.name s)
  have named : ms.flatMap (fun a => ofName (collectedInputs s a)) =
      ms.flatMap fun a => ofName (declaredInputs s ms a) := by
    rw [← List.filter_flatMap, ← List.filter_flatMap, same]
  have le : ∀ a ∈ ms, (ofName (collectedInputs s a)).length ≤
      (ofName (declaredInputs s ms a)).length := by
    intro a inside
    cases field : a.isField with
    | true => exact Nat.le_of_eq (congrArg (fun l => (ofName l).length) (collectedInputs_field field))
    | false =>
        have none : ofName (collectedInputs s a) = [] := by
          cases setter : a.isSetter with
          | false => rw [collectedInputs_other field setter]; rfl
          | true =>
              rw [collectedInputs_setter setter, List.filter_eq_nil_iff]
              intro key found sameName
              obtain ⟨mark, within, rfl⟩ := List.mem_map.mp found
              rw [setterMarked_eq_false.mp unset a inside setter (by simpa [inputOf] using sameName)]
                at within
              cases within
        simp [none]
  obtain ⟨field, setter⟩ := not_isSetter_of_isGetter getter
  have agree := eq_of_flatMap_eq le named m mem
  obtain ⟨mark, marks, found⟩ := List.exists_cons_of_ne_nil marked
  simp [ofName, collectedInputs, declaredInputs, field, setter, getter, unset, found,
    inputOf] at agree

/-- The collected inputs are the declared ones, unless a getter is marked alone or a setter is
marked again. -/
theorem collectedInputs_iff :
    ms.flatMap (collectedInputs s) = ms.flatMap (declaredInputs s ms) ↔
      ∀ m ∈ ms, ¬ m.LoneGetter s ms ∧ ¬ m.MarkedAgain s := by
  constructor
  · intro same
    have le : ∀ m ∈ ms, (declaredInputs s ms m).length ≤ (collectedInputs s m).length := by
      intro m mem
      cases setter : m.isSetter with
      | true => exact length_declaredInputs_setter setter
      | false =>
          cases field : m.isField with
          | true => exact Nat.le_of_eq (congrArg List.length (collectedInputs_field field)).symm
          | false => simp [(declaredInputs_other field setter).mpr (not_loneGetter same mem)]
    intro m mem
    refine ⟨not_loneGetter same mem, fun again => ?_⟩
    exact (declaredInputs_eq_setter again.1).mp (eq_of_flatMap_eq le same.symm m mem).symm again
  · intro fine
    apply List.flatMap_congr
    intro m mem
    obtain ⟨notLone, once⟩ := fine m mem
    cases setter : m.isSetter with
    | true => exact (declaredInputs_eq_setter setter).mpr once
    | false =>
        cases field : m.isField with
        | true => exact collectedInputs_field field
        | false =>
            rw [collectedInputs_other field setter, (declaredInputs_other field setter).mpr notLone]

/-- The collected outputs are the declared ones, unless a field is marked as an input, too. -/
theorem collectedOutputs_iff :
    ms.flatMap (collectedOutputs s) = ms.flatMap (declaredOutputs s) ↔
      ∀ m ∈ ms, ¬ m.MarkedBoth s := by
  have le : ∀ m ∈ ms, (collectedOutputs s m).length ≤ (declaredOutputs s m).length := by
    intro m _
    by_cases field : m.isField = true <;> by_cases input : m.inputMarks s = [] <;>
      simp [collectedOutputs, declaredOutputs, field, input]
  have agrees (m : Member) : collectedOutputs s m = declaredOutputs s m ↔ ¬ m.MarkedBoth s := by
    by_cases field : m.isField = true <;> by_cases input : m.inputMarks s = [] <;>
      cases output : m.outputMarks s <;>
      simp [collectedOutputs, declaredOutputs, MarkedBoth, field, input, output]
  exact ⟨fun same m mem => (agrees m).mp (eq_of_flatMap_eq le same m mem),
    fun fine => List.flatMap_congr fun m mem => (agrees m).mpr (fine m mem)⟩

end Member

/-- The walk over a class collects the inputs and outputs that its members declare, in their order,
exactly when no getter is marked as an input without its setter, no setter is marked twice, and no
field is marked as an input and an output. -/
theorem properties_collected_iff (s : Source) (classNode : Node)
    (kept : MarksKept s (classMembers classNode)) :
    (inputKeys (membersOf s classNode).inputs =
        (classMembers classNode).flatMap (Member.declaredInputs s (classMembers classNode)) ↔
      ∀ m ∈ classMembers classNode,
        ¬ m.LoneGetter s (classMembers classNode) ∧ ¬ m.MarkedAgain s) ∧
    (outputKeys (membersOf s classNode).outputs =
        (classMembers classNode).flatMap (Member.declaredOutputs s) ↔
      ∀ m ∈ classMembers classNode, ¬ m.MarkedBoth s) := by
  rw [← Member.collectedInputs_iff, ← Member.collectedOutputs_iff]
  unfold membersOf classMembers at *
  cases found : classNode.inRole? .body with
  | none => exact ⟨Iff.rfl, Iff.rfl⟩
  | some body =>
      rw [found] at kept
      have walked := collectMembers_keys (fun _ _ => rfl) {} body.children kept
      rw [walked.1, walked.2]
      exact ⟨Iff.rfl, Iff.rfl⟩

/-- The class of a name in a text. -/
def classIn (text name : String) : Node :=
  ((TypeScript.findClass? (Source.ofString text) (TypeScript.parse text false) name).map
    (·.node)).getD default

theorem classIn_chars {text name : String} {cs : List Char} (chars : text.toList = cs) :
    classIn text name =
      ((TypeScript.findClass? ⟨cs⟩ (TypeScript.parseChars cs false) name).map
        (·.node)).getD default := by
  subst chars
  rfl

/-- A class with an aliased input, a pair of accessors that are both marked, and an output. -/
def sliderText : String :=
  "class Slider \x7b @Input('from') start = 0; @Input() get value() \x7b\x7d " ++
    "@Input() set value(v) \x7b\x7d @Output() moved = new EventEmitter(); \x7d"

def sliderSource : Source :=
  Source.ofString sliderText

def slider : Node :=
  classIn sliderText "Slider"

theorem properties_collected_slider :
    MarksKept sliderSource (classMembers slider) ∧
    inputKeys (membersOf sliderSource slider).inputs = [("start", some "from"), ("value", none)] ∧
    outputKeys (membersOf sliderSource slider).outputs = [("moved", none)] := by
  have computed : ((classMembers slider).all (fun m =>
      (!m.isBare || (m.inputMarks sliderSource).isEmpty && (m.outputMarks sliderSource).isEmpty) &&
      !(m.isGetter && !Member.setterMarked sliderSource (classMembers slider) (m.name sliderSource)) &&
      !(m.isSetter && decide (1 < (m.inputMarks sliderSource).length)) &&
      !(m.isField && !(m.inputMarks sliderSource).isEmpty &&
        !(m.outputMarks sliderSource).isEmpty)) &&
      decide ((classMembers slider).flatMap
        (Member.declaredInputs sliderSource (classMembers slider)) =
          [("start", some "from"), ("value", none)]) &&
      decide ((classMembers slider).flatMap (Member.declaredOutputs sliderSource) =
        [("moved", none)])) = true := by
    have chars : sliderText.toList = _ := toList_ofList_append _ _
    have source : sliderSource = ⟨_⟩ := congrArg Source.mk chars
    have node : slider = _ := classIn_chars chars
    rw [source, node]
    decide +kernel
  rw [Bool.and_eq_true, Bool.and_eq_true, decide_eq_true_eq, decide_eq_true_eq] at computed
  obtain ⟨⟨facts, inputs⟩, outputs⟩ := computed
  have marks : MarksKept sliderSource (classMembers slider) := by
    intro m mem bare
    have fact := List.all_eq_true.mp facts m mem
    simp only [bare, Bool.not_true, Bool.false_or, Bool.and_eq_true, List.isEmpty_iff] at fact
    exact fact.1.1.1
  have collected := properties_collected_iff sliderSource slider marks
  refine ⟨marks, (collected.1.mpr fun m mem => ⟨?_, ?_⟩).trans inputs,
    (collected.2.mpr fun m mem => ?_).trans outputs⟩
  all_goals have fact := List.all_eq_true.mp facts m mem
  · rintro ⟨getter, -, unset⟩
    simp [getter, unset] at fact
  · rintro ⟨setter, twice⟩
    simp [setter, Nat.not_le.mpr twice] at fact
  · rintro ⟨field, input, output⟩
    simp [field, input, output] at fact

/-- A class whose input is marked at the getter of a pair. -/
def meterText : String :=
  "@Component(\x7btemplate: ''\x7d) class Meter \x7b level = 0; " ++
    "@Input() get value() \x7b return this.level; \x7d set value(v) \x7b this.level = v; \x7d \x7d"

def meterSource : Source :=
  Source.ofString meterText

def meter : Node :=
  classIn meterText "Meter"

theorem input_lost_meter :
    (classMembers meter).flatMap (Member.declaredInputs meterSource (classMembers meter)) =
      [("value", none)] ∧
    inputKeys (membersOf meterSource meter).inputs = [] := by
  have chars : meterText.toList = _ := toList_ofList_append _ _
  have source : meterSource = ⟨_⟩ := congrArg Source.mk chars
  have node : meter = _ := classIn_chars chars
  rw [source, node]
  decide +kernel

end ReactMigration.Declaration
