import ReactMigration.Proofs.Index

/-!
The index under any sequence of calls.

Names are gathered while the index is open: of several declarations with a name, or with a role that templates
use, the first one counts.  Once the index is sealed, every registration is refused and nothing changes.
-/

namespace ReactMigration

/-! ### First entries -/

namespace SymbolIndex

theorem get?_claim (t : Table Symbol) (keys : List String) (s : Symbol) (name : String) :
    (claim t keys s).get? name = (t.get? name).or (if name ∈ keys then some s else none) := by
  unfold claim
  induction keys generalizing t with
  | nil => simp
  | cons key keys ih =>
      rw [List.foldl_cons, ih, Table.get?_setNew, Option.or_assoc]
      congr 1
      by_cases same : name = key
      · simp [same]
      · simp [same]

end SymbolIndex

/-! ### Declarations -/

namespace Declaration

/-- The names under which templates use a pipe. -/
def pipeNames : Declaration → List String
  | .pipe d => [d.pipeName]
  | _ => []

/-- The elements and attributes that select a component or a directive. -/
def selected : Declaration → List String × List String
  | .component d => parseSelector d.selector
  | .directive d => parseSelector d.selector
  | _ => ([], [])

/-- A class with the name, which is everything but a table of routes. -/
def isClass (name : String) (d : Declaration) : Bool :=
  d.kind != .routes && d.name == name

/-- A table of routes with the name. -/
def isRouteTable (name : String) (d : Declaration) : Bool :=
  d.kind == .routes && d.name == name

end Declaration

namespace SymbolIndex

/-! ### Calls -/

/-- A call that fills the index or ends its filling. -/
inductive Call where
  | register (d : Declaration)
  | registerTypes (path : String)
  | close

/-- What a call answers: whether a declaration was accepted, or why it was refused. -/
abbrev Answer := Except RegisterError (Option Bool)

/-- One call, which leaves the index as it is if it is refused. -/
def call (index : SymbolIndex) : Call → Answer × SymbolIndex
  | .register d =>
      match index.register d with
      | .ok (new, next) => (.ok (some new), next)
      | .error e => (.error e, index)
  | .registerTypes path =>
      match index.registerTypes path with
      | .ok next => (.ok none, next)
      | .error e => (.error e, index)
  | .close => (.ok none, index.sealed)

/-- The index after some calls. -/
def after (index : SymbolIndex) (calls : List Call) : SymbolIndex :=
  calls.foldl (fun index c => (index.call c).2) index

/-- The answers to some calls. -/
def answers (index : SymbolIndex) : List Call → List Answer
  | [] => []
  | c :: calls => (index.call c).1 :: answers (index.call c).2 calls

/-- The declarations that are registered before the index is sealed. -/
def registered : List Call → List Declaration
  | [] => []
  | .register d :: calls => d :: registered calls
  | .registerTypes _ :: calls => registered calls
  | .close :: _ => []

/-- The declarations whose registration is answered with true. -/
def accepted : List Call → List Answer → List Declaration
  | .register d :: calls, .ok (some true) :: rest => d :: accepted calls rest
  | _ :: calls, _ :: rest => accepted calls rest
  | _, _ => []

/-! ### Open indices -/

/-- What an open index holds of the registered and of the accepted declarations. -/
structure Holds (registered accepted : List Declaration) (index : SymbolIndex) : Prop where
  sound : index.Sound registered
  classes : ∀ name, index.lookup name = (registered.find? (·.isClass name)).map .ofDeclaration
  tables : ∀ name, index.routeTable name = (registered.find? (·.isRouteTable name)).map .ofDeclaration
  pipes : ∀ name, index.pipe name = (accepted.find? (·.pipeNames.contains name)).map .ofDeclaration
  elements : ∀ name, index.element name = (accepted.find? (·.selected.1.contains name)).map .ofDeclaration
  attributes : ∀ name, index.attr name = (accepted.find? (·.selected.2.contains name)).map .ofDeclaration

variable {ds as : List Declaration} {index next : SymbolIndex} {d : Declaration} {new : Bool} {path : String}

theorem find?_concat (p : Declaration → Bool) (ds : List Declaration) (d : Declaration) :
    ((ds ++ [d]).find? p).map Symbol.ofDeclaration =
      ((ds.find? p).map .ofDeclaration).or (if p d then some (.ofDeclaration d) else none) := by
  rw [List.find?_append]
  cases ds.find? p with
  | none => cases holds : p d <;> simp [holds]
  | some e => rfl

theorem Holds.empty : Holds [] [] {} :=
  ⟨.empty, fun _ => rfl, fun _ => rfl, fun _ => rfl, fun _ => rfl, fun _ => rfl⟩

theorem Holds.sealed (h : Holds ds as index) : Holds ds as index.sealed :=
  ⟨⟨h.sound.declared, h.sound.pipes, h.sound.elements, h.sound.attributes⟩, h.classes, h.tables, h.pipes, h.elements,
    h.attributes⟩

theorem Holds.registerTypes (h : Holds ds as index) (done : index.registerTypes path = .ok next) :
    Holds ds as next := by
  have sound := h.sound.registerTypes done
  unfold SymbolIndex.registerTypes at done
  split at done
  · cases done
  · split at done
    · cases done
      exact h
    · cases done
      exact ⟨sound, h.classes, h.tables, h.pipes, h.elements, h.attributes⟩

/-- The roles of a symbol are added behind those that are taken. -/
theorem addRoles_roles (index : SymbolIndex) (d : Declaration) (name : String) :
    let next := index.addRoles (.ofDeclaration d)
    next.pipe name = (index.pipe name).or (if d.pipeNames.contains name then some (.ofDeclaration d) else none) ∧
      next.element name =
        (index.element name).or (if d.selected.1.contains name then some (.ofDeclaration d) else none) ∧
      next.attr name = (index.attr name).or (if d.selected.2.contains name then some (.ofDeclaration d) else none) ∧
      next.symbols = index.symbols ∧ next.routeTables = index.routeTables := by
  cases d with
  | pipe d =>
      refine ⟨?_, by simp [addRoles, Symbol.ofDeclaration, element, Declaration.selected],
        by simp [addRoles, Symbol.ofDeclaration, attr, Declaration.selected], rfl, rfl⟩
      simp [addRoles, Symbol.ofDeclaration, pipe, Table.get?_setNew, Declaration.pipeNames, eq_comm]
  | component d =>
      refine ⟨by simp [addRoles, Symbol.ofDeclaration, pipe, Declaration.pipeNames], ?_, ?_,
        by simp [addRoles, Symbol.ofDeclaration], by simp [addRoles, Symbol.ofDeclaration]⟩
      · simp [addRoles, Symbol.ofDeclaration, element, get?_claim, Declaration.selected]
      · simp [addRoles, Symbol.ofDeclaration, attr, get?_claim, Declaration.selected]
  | directive d =>
      refine ⟨by simp [addRoles, Symbol.ofDeclaration, pipe, Declaration.pipeNames], ?_, ?_,
        by simp [addRoles, Symbol.ofDeclaration], by simp [addRoles, Symbol.ofDeclaration]⟩
      · simp [addRoles, Symbol.ofDeclaration, element, get?_claim, Declaration.selected]
      · simp [addRoles, Symbol.ofDeclaration, attr, get?_claim, Declaration.selected]
  | service d => simp [addRoles, Symbol.ofDeclaration, Declaration.pipeNames, Declaration.selected]
  | module d => simp [addRoles, Symbol.ofDeclaration, Declaration.pipeNames, Declaration.selected]
  | routes d => simp [addRoles, Symbol.ofDeclaration, Declaration.pipeNames, Declaration.selected]

/-- What registering does to an open index: a table of routes only joins the tables of routes, a class whose name is
taken changes nothing, and any other class takes its name and its roles. -/
theorem register_cases (done : index.register d = .ok (new, next)) :
    (d.kind = .routes ∧ new = true ∧
        next = { index with routeTables := index.routeTables.setNew d.name (.ofDeclaration d) }) ∨
      (d.kind ≠ .routes ∧ index.symbols.has d.name = true ∧ new = false ∧ next = index) ∨
      (d.kind ≠ .routes ∧ index.symbols.has d.name = false ∧ new = true ∧
        next = addRoles { index with symbols := index.symbols.setNew d.name (.ofDeclaration d) } (.ofDeclaration d)) := by
  unfold SymbolIndex.register at done
  split at done
  · cases done
  · cases kind : d with
    | routes r =>
        subst kind
        cases done
        exact .inl ⟨rfl, rfl, rfl⟩
    | _ =>
        have notRoutes : d.kind ≠ .routes := by
          rw [kind]
          exact UnitKind.noConfusion
        simp only [kind] at done
        rw [← kind] at done
        rw [← kind]
        split at done
        · rename_i taken
          cases done
          exact .inr (.inl ⟨notRoutes, taken, rfl, rfl⟩)
        · rename_i free
          cases done
          exact .inr (.inr ⟨notRoutes, by simpa using free, rfl, rfl⟩)

theorem Holds.register (h : Holds ds as index) (done : index.register d = .ok (new, next)) :
    Holds (ds ++ [d]) (as ++ if new then [d] else []) next := by
  have sound : next.Sound (ds ++ [d]) :=
    (h.sound.weaken fun e mem => List.mem_append_left _ mem).register (by simp) done
  obtain ⟨kind, rfl, rfl⟩ | ⟨kind, taken, rfl, rfl⟩ | ⟨kind, free, rfl, rfl⟩ := register_cases done
  · have noRoles : d.pipeNames = [] ∧ d.selected = ([], []) := by
      cases d <;> first | exact ⟨rfl, rfl⟩ | cases kind
    refine ⟨sound, fun name => ?_, fun name => ?_, fun name => ?_, fun name => ?_, fun name => ?_⟩
    · rw [find?_concat, ← h.classes]
      simp [Declaration.isClass, kind, lookup]
    · rw [find?_concat, ← h.tables, routeTable, Table.get?_setNew]
      simp [Declaration.isRouteTable, kind, routeTable, @eq_comm _ d.name]
    · rw [if_pos rfl, find?_concat, ← h.pipes]
      simp [noRoles, pipe]
    · rw [if_pos rfl, find?_concat, ← h.elements]
      simp [noRoles, element]
    · rw [if_pos rfl, find?_concat, ← h.attributes]
      simp [noRoles, attr]
  · have other : (d.kind == .routes) = false := by simpa using kind
    rw [if_neg (by simp), List.append_nil]
    refine ⟨sound, fun name => ?_, fun name => ?_, h.pipes, h.elements, h.attributes⟩
    · rw [find?_concat, ← h.classes]
      by_cases same : d.name = name
      · have stored : next.lookup name ≠ none := by
          rw [lookup, ne_eq, Table.get?_eq_none_iff, ← same, taken]
          simp
        obtain ⟨old, found⟩ := Option.ne_none_iff_exists'.mp stored
        simp [found]
      · simp [Declaration.isClass, same]
    · rw [find?_concat, ← h.tables]
      simp [Declaration.isRouteTable, other]
  · have other : (d.kind == .routes) = false := by simpa using kind
    have roles (name : String) :=
      addRoles_roles { index with symbols := index.symbols.setNew d.name (.ofDeclaration d) } d name
    refine ⟨sound, fun name => ?_, fun name => ?_, fun name => ?_, fun name => ?_, fun name => ?_⟩
    · obtain ⟨-, -, -, symbols, -⟩ := roles name
      rw [lookup, symbols, Table.get?_setNew, find?_concat, ← h.classes]
      simp [lookup, Declaration.isClass, kind, @eq_comm _ d.name]
    · obtain ⟨-, -, -, -, tables⟩ := roles name
      rw [routeTable, tables, find?_concat, ← h.tables]
      simp [Declaration.isRouteTable, other, routeTable]
    · rw [(roles name).1, if_pos rfl, find?_concat, ← h.pipes]
      rfl
    · rw [(roles name).2.1, if_pos rfl, find?_concat, ← h.elements]
      rfl
    · rw [(roles name).2.2.1, if_pos rfl, find?_concat, ← h.attributes]
      rfl

/-! ### Sealed indices -/

/-- The answer of a sealed index. -/
def Call.refusal : Call → Answer
  | .register _ => .error .isSealed
  | .registerTypes _ => .error .isSealed
  | .close => .ok none

theorem after_cons (index : SymbolIndex) (c : Call) (calls : List Call) :
    index.after (c :: calls) = (index.call c).2.after calls := rfl

theorem sealed_of_isSealed (closed : index.isSealed = true) : index.sealed = index := by
  cases index
  cases closed
  rfl

theorem call_of_isSealed (closed : index.isSealed = true) (c : Call) : index.call c = (c.refusal, index) := by
  cases c with
  | register d => simp [call, SymbolIndex.register, closed, Call.refusal]
  | registerTypes path => simp [call, SymbolIndex.registerTypes, closed, Call.refusal]
  | close => simp [call, sealed_of_isSealed closed, Call.refusal]

theorem after_of_isSealed (closed : index.isSealed = true) (calls : List Call) : index.after calls = index := by
  induction calls with
  | nil => rfl
  | cons c calls ih =>
      rw [after_cons, call_of_isSealed closed]
      exact ih

theorem answers_of_isSealed (closed : index.isSealed = true) (calls : List Call) :
    index.answers calls = calls.map Call.refusal := by
  induction calls with
  | nil => rfl
  | cons c calls ih => rw [answers, call_of_isSealed closed, List.map_cons, ih]

theorem accepted_refusals (calls : List Call) : accepted calls (calls.map Call.refusal) = [] := by
  induction calls with
  | nil => rfl
  | cons c calls ih => cases c <;> exact ih

/-! ### Sequences of calls -/

theorem register_of_isOpen (isOpen : index.isSealed = false) (d : Declaration) :
    ∃ new next, index.register d = .ok (new, next) ∧ next.isSealed = false := by
  have roles (i : SymbolIndex) (s : Symbol) : (i.addRoles s).isSealed = i.isSealed := by
    unfold addRoles
    split <;> rfl
  unfold SymbolIndex.register
  rw [if_neg (by simp [isOpen])]
  dsimp only
  split
  · exact ⟨_, _, rfl, isOpen⟩
  · split
    · exact ⟨_, _, rfl, isOpen⟩
    · exact ⟨_, _, rfl, (roles _ _).trans isOpen⟩

theorem registerTypes_of_isOpen (isOpen : index.isSealed = false) (path : String) :
    ∃ next, index.registerTypes path = .ok next ∧ next.isSealed = false := by
  unfold SymbolIndex.registerTypes
  rw [if_neg (by simp [isOpen])]
  split
  · exact ⟨_, rfl, isOpen⟩
  · exact ⟨_, rfl, isOpen⟩

/-- An index that was open holds the declarations of all calls up to the first seal. -/
theorem Holds.after (calls : List Call) (h : Holds ds as index) (isOpen : index.isSealed = false) :
    Holds (ds ++ registered calls) (as ++ accepted calls (index.answers calls)) (index.after calls) := by
  induction calls generalizing ds as index with
  | nil => simpa [registered, accepted, SymbolIndex.after] using h
  | cons c calls ih =>
      rw [after_cons, answers]
      cases c with
      | register d =>
          obtain ⟨new, next, done, still⟩ := register_of_isOpen isOpen d
          have called : index.call (.register d) = (.ok (some new), next) := by simp [call, done]
          have further := ih (h.register done) still
          rw [called]
          cases new with
          | true => simpa [registered, accepted] using further
          | false => simpa [registered, accepted] using further
      | registerTypes path =>
          obtain ⟨next, done, still⟩ := registerTypes_of_isOpen isOpen path
          have called : index.call (.registerTypes path) = (.ok none, next) := by simp [call, done]
          rw [called]
          exact ih (h.registerTypes done) still
      | close =>
          have closed : (index.call .close).2.isSealed = true := rfl
          have none : accepted (.close :: calls) ((index.call .close).1 :: calls.map Call.refusal) = [] :=
            accepted_refusals calls
          rw [after_of_isSealed closed, answers_of_isSealed closed, none]
          rw [registered, List.append_nil, List.append_nil]
          exact h.sealed

theorem after_append (index : SymbolIndex) (front back : List Call) :
    index.after (front ++ back) = (index.after front).after back :=
  List.foldl_append

theorem answers_append (index : SymbolIndex) (front back : List Call) :
    index.answers (front ++ back) = index.answers front ++ (index.after front).answers back := by
  induction front generalizing index with
  | nil => rfl
  | cons c front ih => rw [List.cons_append, answers, ih, answers, List.cons_append, after_cons]

/-- The index of a run is the one after registering everything in order and sealing. -/
theorem build_eq_after (ds : List Declaration) (units : List String) :
    build ds units = after {} (ds.map .register ++ units.map .registerTypes ++ [.close]) := by
  have registers (index : SymbolIndex) : index.after (ds.map .register) =
      ds.foldl (fun index d => match index.register d with | .ok (_, next) => next | .error _ => index) index := by
    rw [after, List.foldl_map]
    congr 1
    funext index d
    simp only [call]
    split <;> simp_all
  have types (index : SymbolIndex) : index.after (units.map .registerTypes) =
      units.foldl (fun index path => match index.registerTypes path with | .ok next => next | .error _ => index)
        index := by
    rw [after, List.foldl_map]
    congr 1
    funext index path
    simp only [call]
    split <;> simp_all
  rw [after_append, after_append, registers, types]
  rfl

theorem isSealed_after_close (index : SymbolIndex) (front : List Call) :
    (index.after (front ++ [.close])).isSealed = true := by
  rw [after_append]
  rfl

/-- After any calls, a name leads to the first class registered under it and a table of routes to the first one, a
role leads to the first accepted declaration that has it and its symbol is the one of its own name, and after the
seal every registration is refused and nothing changes. -/
theorem after_calls (calls : List Call) :
    let index := after {} calls
    let accepted := accepted calls (answers {} calls)
    (∀ name, index.lookup name = ((registered calls).find? (·.isClass name)).map .ofDeclaration) ∧
      (∀ entry ∈ index.pipes ++ index.elements ++ index.attributes, index.lookup entry.2.name = some entry.2) ∧
      (∀ name, index.pipe name = (accepted.find? (·.pipeNames.contains name)).map .ofDeclaration) ∧
      (∀ name, index.element name = (accepted.find? (·.selected.1.contains name)).map .ofDeclaration) ∧
      (∀ name, index.attr name = (accepted.find? (·.selected.2.contains name)).map .ofDeclaration) ∧
      (∀ name, index.routeTable name = ((registered calls).find? (·.isRouteTable name)).map .ofDeclaration) ∧
      ∀ front back, calls = front ++ .close :: back → index = after {} (front ++ [.close]) ∧
        answers {} calls = answers {} (front ++ [.close]) ++ back.map Call.refusal := by
  intro index accepted
  have holds : Holds (registered calls) accepted index := Holds.empty.after calls rfl
  refine ⟨holds.classes, fun entry mem => ?_, holds.pipes, holds.elements, holds.attributes, holds.tables, ?_⟩
  · rw [List.mem_append, List.mem_append] at mem
    obtain (pipe | element) | attr := mem
    · exact holds.sound.pipes _ _ pipe
    · exact holds.sound.elements _ _ element
    · exact holds.sound.attributes _ _ attr
  · intro front back split
    have whole : calls = (front ++ [.close]) ++ back := by rw [split, List.append_assoc, List.singleton_append]
    have closed := isSealed_after_close {} front
    refine ⟨?_, ?_⟩
    · rw [← after_of_isSealed closed back, ← after_append, ← whole]
    · rw [whole, answers_append, answers_of_isSealed closed]

/-- A component that an element and an attribute select. -/
def cardDeclaration : Declaration :=
  .component { name := "Card", sourcePath := "card.ts", selector := some "app-card, [card]" }

/-- A pipe under the given names. -/
def trimDeclaration (name pipeName : String) : Declaration :=
  .pipe { name, sourcePath := "trim.ts", pipeName }

/-- A name that is taken, and a pipe that comes after the seal. -/
def galleryCalls : List Call :=
  [.register cardDeclaration, .register (trimDeclaration "Card" "crop"), .register (trimDeclaration "Trim" "trim"),
    .registerTypes "types.ts", .close, .register (trimDeclaration "Late" "late"), .close]

theorem after_calls_gallery :
    let index := after {} galleryCalls
    index.lookup "Card" = some (.ofDeclaration cardDeclaration) ∧
      index.attr "card" = some (.ofDeclaration cardDeclaration) ∧ index.pipe "crop" = none ∧
      index.pipe "trim" = some (.ofDeclaration (trimDeclaration "Trim" "trim")) ∧ index.lookup "Late" = none ∧
      index = after {} (galleryCalls.take 5) ∧
      answers {} galleryCalls = answers {} (galleryCalls.take 5) ++ [.error .isSealed, .ok none] := by
  intro index
  obtain ⟨classes, -, pipes, -, attributes, -, sealing⟩ := after_calls galleryCalls
  obtain ⟨unchanged, refused⟩ := sealing (galleryCalls.take 4) _ rfl
  exact ⟨classes "Card", (attributes "card").trans (rfl), (pipes "crop").trans (rfl),
    (pipes "trim").trans (rfl), classes "Late", unchanged, refused⟩

end SymbolIndex

end ReactMigration
