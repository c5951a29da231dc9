import ReactMigration.Conversion.Handler
import ReactMigration.Proofs.Substitution

/-!
The names in the code of a handler.

The function that handlers become binds the parameter of the first one, and handlers that were
written for another parameter stand under that name as well.  An identifier of a handler keeps its
meaning inside of the function exactly when its code refers to none of the names that are bound.
-/

namespace ReactMigration

open ReactMigration.Text

/-! ### Functions of an event -/

/-- A handler inside of the function, with the further name that the event has around it. -/
structure Arrow.Part where
  handler : Handler
  copy : Option String := none

/-- The function that handlers of one event become. -/
structure Arrow where
  param : Option String
  parts : List Arrow.Part

namespace Arrow

/-- A part as it is written; the further name is a constant that holds the parameter. -/
def Part.text (param : String) (p : Part) : String :=
  match p.copy with
  | some name => Handler.braced ("const " ++ name ++ " = " ++ param ++ "; " ++ p.handler.block)
  | none => p.handler.block

/-- What the function does: one plain statement, or the blocks of its parts. -/
def body (a : Arrow) : String :=
  match a.parts with
  | [⟨⟨_, _, [statement], none⟩, none⟩] => statement
  | parts => Handler.braced (" ".intercalate (parts.map (·.text (a.param.getD ""))))

def text (a : Arrow) : String :=
  "(" ++ a.param.getD "" ++ ") => " ++ a.body

/-- What a name refers to: what the event passes, or what it refers to around the function. -/
inductive Meaning where
  | event
  | around (name : String)
  deriving Repr, DecidableEq

def resolve (a : Arrow) (name : String) : Meaning :=
  if a.param = some name then .event else .around name

/-- What a name refers to in a part: a further name refers to what the parameter refers to. -/
def resolveIn (a : Arrow) (p : Part) (name : String) : Meaning :=
  if p.copy = some name then a.resolve (a.param.getD "") else a.resolve name

end Arrow

namespace Handler

/-- Whether the function of the handlers has a parameter: always when there are several, and
otherwise when the only one is guarded or seen to use it. -/
def Binds (h : Handler) (hs : List Handler) : Prop :=
  hs ≠ [] ∨ h.guard.isSome = true ∨ h.statements.any (mentions h.param) = true

instance (h : Handler) (hs : List Handler) : Decidable (h.Binds hs) :=
  inferInstanceAs (Decidable (_ ∨ _ ∨ _))

/-- A handler as a part of the function of the first one. -/
def part (first h : Handler) : Arrow.Part :=
  { handler := h, copy := if h.param = first.param then none else some h.param }

def arrow (h : Handler) (hs : List Handler) : Arrow :=
  { param := if h.Binds hs then some h.param else none
    parts := (h :: hs).map h.part }

theorem part_self (h : Handler) : h.part h = ⟨h, none⟩ := by
  simp [part]

/-- Handlers of one event are written as their function. -/
theorem merge_eq_text (h : Handler) (hs : List Handler) :
    merge (h :: hs) = (h.arrow hs).text := by
  cases hs with
  | nil =>
      have head : (if (h.guard.isSome || h.statements.any (mentions h.param)) = true then
          "(" ++ h.param ++ ") =>" else "() =>") = "(" ++ ((h.arrow []).param.getD "") ++ ") =>" := by
        by_cases binds : h.Binds []
        · have uses : (h.guard.isSome || h.statements.any (mentions h.param)) = true := by
            simpa [Binds] using binds
          simp only [arrow, if_pos binds, if_pos uses, Option.getD_some]
        · have idle : ¬ (h.guard.isSome || h.statements.any (mentions h.param)) = true := by
            simpa [Binds] using binds
          simp only [arrow, if_neg binds, if_neg idle, Option.getD_none]
          rfl
      have parts : (h.arrow []).parts = [⟨h, none⟩] := by
        rw [← part_self]
        rfl
      rw [merge, render, head, Arrow.text, Arrow.body, parts]
      rcases h with ⟨prop, param, _ | ⟨statement, _ | ⟨second, more⟩⟩, _ | guard⟩ <;>
        simp [Arrow.Part.text, String.append_assoc, String.intercalate_singleton]
  | cons next hs =>
      have binds : h.Binds (next :: hs) := .inl (by simp)
      have part (x : Handler) : (h.part x).text h.param =
          if (x.param != h.param) = true then
            braced ("const " ++ x.param ++ " = " ++ h.param ++ "; " ++ x.block)
          else x.block := by
        by_cases same : x.param = h.param <;> simp [Handler.part, Arrow.Part.text, same]
      have parts : (h.arrow (next :: hs)).body =
          braced (" ".intercalate ((h :: next :: hs).map fun x => (h.part x).text h.param)) := by
        simp [Arrow.body, arrow, binds, Function.comp_def]
      rw [merge, Arrow.text, parts]
      · simp only [part, arrow, if_pos binds, Option.getD_some, String.append_assoc]
      · exact List.cons_ne_nil next hs

/-- A name in one of the handlers refers to the event if it is the parameter of the handler or of
the first one, and there is a parameter at all. -/
theorem resolveIn_part {first h : Handler} {rest : List Handler} (mem : h ∈ first :: rest)
    (name : String) : (first.arrow rest).resolveIn (first.part h) name =
      if first.Binds rest ∧ (name = first.param ∨ name = h.param) then .event else .around name := by
  by_cases binds : first.Binds rest
  · by_cases same : h.param = first.param
    · simp [Arrow.resolveIn, Arrow.resolve, arrow, part, binds, same, eq_comm]
    · by_cases copied : h.param = name
      · simp [Arrow.resolveIn, Arrow.resolve, arrow, part, binds, copied, eq_comm]
      · simp [Arrow.resolveIn, Arrow.resolve, arrow, part, binds, same, Ne.symm copied, eq_comm]
  · -- without a parameter there is one handler only
    have alone : rest = [] := by
      by_contra more
      exact binds (.inl more)
    obtain rfl : h = first := by simpa [alone] using mem
    simp [Arrow.resolveIn, Arrow.resolve, arrow, part_self, binds]

end Handler

/-! ### Bindings -/

/-- An event binding of a template, with what is known about its element. -/
structure EventBinding where
  name : String
  handler : String
  position : Template.Position := {}
  twoWay : Bool := false
  component : Bool := false
  /-- The property of a form control that the binding reads. -/
  formValue : Option String := none

namespace EventBinding

def param (b : EventBinding) : String :=
  if b.twoWay && !present b.formValue then "value" else "event"

/-- What `$event` stands for. -/
def value (b : EventBinding) : String :=
  if b.twoWay && present b.formValue then "event.target." ++ b.formValue.getD "" else b.param

def scope (b : EventBinding) (locals : Table String) : Table String :=
  locals.set "$event" b.value

def identifiers (b : EventBinding) : List String :=
  (Script.statements b.handler).flatMap fun statement => Script.namesIn (trim statement)

def convert (b : EventBinding) (ctx : RecastContext) (locals : Table String) :
    Converting (Option Handler) :=
  Handler.ofBinding ctx locals b.name b.handler b.position b.twoWay b.component b.formValue

def Becomes (b : EventBinding) (ctx : RecastContext) (locals : Table String) (h : Handler) : Prop :=
  Converting.Gives (b.convert ctx locals) (some h)

/-- Inside of the function `$event` refers to the event, and every other identifier to what it
refers to around it. -/
def KeepsNames (b : EventBinding) (locals : Table String) (a : Arrow) (p : Arrow.Part) : Prop :=
  ∀ x ∈ b.identifiers, ∀ y ∈ (b.scope locals).namesFor x,
    a.resolveIn p y = if x = "$event" then .event else .around y

instance (b : EventBinding) (locals : Table String) (a : Arrow) (p : Arrow.Part) :
    Decidable (b.KeepsNames locals a p) :=
  inferInstanceAs (Decidable (∀ x ∈ b.identifiers, ∀ y ∈ (b.scope locals).namesFor x,
    a.resolveIn p y = if x = "$event" then .event else .around y))

/-- The handler has the parameter of its binding, and each of its statements is recast in the scope
of the binding. -/
theorem convert_runs (b : EventBinding) (ctx : RecastContext) {locals : Table String}
    (distinct : locals.keys.Nodup) (d : Draft) :
    Runs (b.convert ctx locals) d fun made _ => ∀ h ∈ made, h.param = b.param ∧
      List.Forall₂ (Recasts ctx (b.scope locals)) (Script.statements b.handler) h.statements := by
  unfold convert Handler.ofBinding
  split
  split
  · exact (Runs.lifted (Q := fun _ _ => True) (.warnAt _ _ _ _)).bind fun _ _ _ => .pure (by simp)
  · extract_lets parts event
    split
    rename_i prop param value chosen
    have named : param = b.param ∧ value = b.value := by
      unfold EventBinding.value EventBinding.param
      grind
    obtain ⟨rfl, rfl⟩ := named
    refine Runs.bind (Q := fun statements _ => True ∧
      List.Forall₂ (Recasts ctx (b.scope locals)) (Script.statements b.handler) statements) ?_ ?_
    · refine Runs.mapM (I := fun _ => True) trivial fun statement _ d _ => ?_
      refine (Converting.expression_recasts ctx ?_ statement d).mono fun _ _ h => ⟨trivial, h⟩
      exact Table.nodup_keys_set distinct _ _
    · rintro statements d' ⟨_, recast⟩
      refine .pure fun h same => ?_
      obtain rfl := Option.some.inj same
      exact ⟨rfl, recast⟩

theorem Becomes.recasts {b : EventBinding} {ctx : RecastContext} {locals : Table String} {h : Handler}
    (made : b.Becomes ctx locals h) (distinct : locals.keys.Nodup) : h.param = b.param ∧
      List.Forall₂ (Recasts ctx (b.scope locals)) (Script.statements b.handler) h.statements :=
  made.ensured (b.convert_runs ctx distinct) h rfl

/-- The code of `$event` refers to the parameter alone. -/
theorem namesFor_event {b : EventBinding} (form : b.formValue ∈ [none, some "value", some "checked"])
    (locals : Table String) : (b.scope locals).namesFor "$event" = [b.param] := by
  have all : ∀ twoWay, ∀ form ∈ [none, some "value", some "checked"],
      Script.namesIn (value ⟨"", "", {}, twoWay, false, form⟩) =
        [param ⟨"", "", {}, twoWay, false, form⟩] := by
    decide +kernel
  rw [Table.namesFor, scope, Table.get?_set, if_pos rfl]
  exact all b.twoWay b.formValue form

theorem namesFor_other (b : EventBinding) (locals : Table String) {name : String}
    (other : name ≠ "$event") : (b.scope locals).namesFor name = locals.namesFor name := by
  rw [Table.namesFor, scope, Table.get?_set, if_neg other, Table.namesFor]

end EventBinding

/-! ### Capture -/

/-- In the function of handlers of one event, each of them made from a binding keeps the meaning of
its identifiers exactly when the function has a parameter where `$event` is used, and where it has
one no other identifier has a code that refers to it or to the handler's own. -/
theorem handler_names_kept_iff {ctx : RecastContext} {locals : Table String} {b : EventBinding}
    {first h : Handler} {rest : List Handler} (distinct : locals.keys.Nodup)
    (form : b.formValue ∈ [none, some "value", some "checked"]) (made : b.Becomes ctx locals h)
    (mem : h ∈ first :: rest) :
    (Handler.merge (first :: rest) = (first.arrow rest).text ∧
        first.part h ∈ (first.arrow rest).parts ∧
        List.Forall₂ (Recasts ctx (b.scope locals)) (Script.statements b.handler) h.statements) ∧
      (b.KeepsNames locals (first.arrow rest) (first.part h) ↔
        ("$event" ∈ b.identifiers → first.Binds rest) ∧
          (first.Binds rest → ∀ x ∈ b.identifiers, x ≠ "$event" →
            first.param ∉ locals.namesFor x ∧ b.param ∉ locals.namesFor x)) := by
  obtain ⟨param, recast⟩ := made.recasts distinct
  refine ⟨⟨first.merge_eq_text rest, List.mem_map_of_mem mem, recast⟩, ?_⟩
  simp only [EventBinding.KeepsNames, Handler.resolveIn_part mem, param]
  constructor
  · intro keeps
    constructor
    · -- without a parameter, what stands for the event would be a name from around the function
      intro used
      have here := keeps "$event" used b.param (by simp [EventBinding.namesFor_event form])
      by_contra unbound
      simp [unbound] at here
    · intro binds x hx other
      have free (y : String) (hy : y ∈ locals.namesFor x) : ¬ (y = first.param ∨ y = b.param) := by
        have here := keeps x hx y (by rwa [EventBinding.namesFor_other b locals other])
        intro bound
        simp [binds, bound, other] at here
      exact ⟨fun hy => free _ hy (.inl rfl), fun hy => free _ hy (.inr rfl)⟩
  · rintro ⟨event, others⟩ x hx y hy
    by_cases same : x = "$event"
    · subst same
      rw [EventBinding.namesFor_event form, List.mem_singleton] at hy
      simp [event hx, hy]
    · rw [EventBinding.namesFor_other b locals same] at hy
      rw [if_neg same, if_neg]
      rintro ⟨binds, rfl | rfl⟩
      · exact (others binds x hx same).1 hy
      · exact (others binds x hx same).2 hy

/-- A row of a list that is picked when it is clicked. -/
def rowBinding : EventBinding where
  name := "click"
  handler := "pick(row, odd, $event)"

theorem handler_names_kept_rowBinding : ∃ ctx locals h, rowBinding.Becomes ctx locals h ∧
    Handler.merge [h] = "(event) => pick(row, (index % 2 === 1), event)" ∧
    rowBinding.KeepsNames locals (h.arrow []) (h.part h) := by
  let ctx : RecastContext := { members := ["rows", "pick"] }
  let locals : Table String := [("row", "row"), ("index", "index"), ("odd", "(index % 2 === 1)")]
  let h : Handler := ⟨"onClick", "event", ["pick(row, (index % 2 === 1), event)"], none⟩
  have made : rowBinding.Becomes ctx locals h :=
    Converting.gives_of_value? (by decide +kernel)
  refine ⟨ctx, locals, h, made, by decide +kernel, ?_⟩
  refine (handler_names_kept_iff (by decide) (by decide) made List.mem_cons_self).2.mpr ?_
  decide +kernel

/-- An item named `event` that is picked when it is clicked. -/
def eventBinding : EventBinding where
  name := "click"
  handler := "pick(event)"

theorem handler_names_captured_eventBinding : ∃ ctx locals h, eventBinding.Becomes ctx locals h ∧
    Handler.merge [h] = "(event) => pick(event)" ∧
    ¬ eventBinding.KeepsNames locals (h.arrow []) (h.part h) := by
  refine ⟨{ members := ["events", "pick"] }, [("event", "event"), ("index", "index")],
    ⟨"onClick", "event", ["pick(event)"], none⟩, ?_, by decide +kernel, by decide +kernel⟩
  exact Converting.gives_of_value? (by decide +kernel)

end ReactMigration
