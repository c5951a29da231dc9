import ReactMigration.Conversion.Attributes
import ReactMigration.Proofs.Index
import ReactMigration.Proofs.Outcome
import ReactMigration.Target.Support

/-!
What can happen to the draft of a module while a template is converted.

`Draft.Step` lists every change, each time with its guard: an import has a target that the index
knows, and a variable that is made has a name that was free.  `Draft.Grows` is what any number of
such steps come to.
-/

namespace ReactMigration

open ReactMigration.Template
open Relation (ReflTransGen)

/-! ### Free names -/

namespace Converting

theorem eq_of_numbered_eq {base : String} {i j : Nat}
    (h : base ++ toString i = base ++ toString j) : i = j := by
  have numbers : toString i = toString j := (String.append_right_inj base).mp h
  rw [Nat.toString_eq_ofList_toDigits, Nat.toString_eq_ofList_toDigits] at numbers
  have digits : Nat.toDigits 10 i = Nat.toDigits 10 j := String.ofList_injective numbers
  rw [← Nat.ofDigitChars_ten_toDigits (n := i), digits, Nat.ofDigitChars_ten_toDigits]

theorem freeName_numbered (taken : List String) (base : String) (n counter : Nat) :
    ∃ k, counter ≤ k ∧ freeName taken base n counter = base ++ toString k := by
  induction n generalizing counter with
  | zero => exact ⟨counter, Nat.le_refl _, rfl⟩
  | succ n ih =>
      simp only [freeName]
      split
      · obtain ⟨k, hk, eq⟩ := ih (counter + 1)
        exact ⟨k, by omega, eq⟩
      · exact ⟨counter, Nat.le_refl _, rfl⟩

/-- Only names from the counter on decide the search. -/
theorem freeName_congr {taken taken' : List String} {base : String} {n counter : Nat}
    (same : ∀ k, counter ≤ k → (base ++ toString k ∈ taken ↔ base ++ toString k ∈ taken')) :
    freeName taken base n counter = freeName taken' base n counter := by
  induction n generalizing counter with
  | zero => rfl
  | succ n ih =>
      have here : taken.contains (base ++ toString counter) =
          taken'.contains (base ++ toString counter) := by
        simp only [List.contains_eq_mem, same counter (Nat.le_refl _)]
      simp only [freeName, here]
      rw [ih fun k hk => same k (by omega)]

/-- As many attempts as there are names in use are enough: each taken name fails one of them. -/
theorem freeName_free (base : String) (n : Nat) :
    ∀ (taken : List String) (counter : Nat), taken.length ≤ n →
      freeName taken base n counter ∉ taken := by
  induction n with
  | zero =>
      intro taken counter short
      have none : taken = [] := List.length_eq_zero_iff.mp (by omega)
      simp [none]
  | succ n ih =>
      intro taken counter short
      simp only [freeName]
      split
      · rename_i used
        -- a later name is none of those that have failed, so the failed one can be left out
        obtain ⟨name, named⟩ : ∃ name, name = base ++ toString counter := ⟨_, rfl⟩
        rw [← named] at used
        have later (k : Nat) (hk : counter + 1 ≤ k) : base ++ toString k ≠ name := by
          intro eq
          have := eq_of_numbered_eq (eq.trans named)
          omega
        have same : freeName taken base n (counter + 1) =
            freeName (taken.filter (· ≠ name)) base n (counter + 1) := by
          refine freeName_congr fun k hk => ?_
          rw [List.mem_filter]
          exact ⟨fun h => ⟨h, decide_eq_true (later k hk)⟩, fun h => h.1⟩
        have fewer : (taken.filter (· ≠ name)).length < taken.length :=
          List.length_filter_lt_length_iff_exists.mpr ⟨name, by simpa using used, by simp⟩
        have free := ih (taken.filter (· ≠ name)) (counter + 1) (by omega)
        obtain ⟨k, hk, eq⟩ := freeName_numbered taken base n (counter + 1)
        rw [← same, eq] at free
        rw [eq]
        intro old
        exact free (List.mem_filter.mpr ⟨old, decide_eq_true (later k hk)⟩)
      · rename_i unused
        simpa using unused

/-- A name is taken that was free. -/
theorem unique_runs (base : String) (d : Draft) :
    Runs (unique base) d fun name d' =>
      name ∉ d.taken ∧ d' = { d with taken := d.taken ++ [name] } := by
  refine .get_bind (.modify_bind (.pure ⟨?_, rfl⟩))
  split
  · exact freeName_free base _ _ _ (Nat.le_refl _)
  · rename_i unused
    simpa using unused

end Converting

/-! ### Steps -/

/-- A module that some unit of the run gives: a shared one, a copy of types, or the module of a class
that is found under its name. -/
inductive ArtifactRef.Known (index : SymbolIndex) : ArtifactRef → Prop
  | shared {t : ArtifactRef} (found : (Support.find? t).isSome) : Known index t
  | types {path : String} (found : index.isTypesUnit path) : Known index (.types path)
  | symbol {s : Symbol} {t : ArtifactRef} (registered : index.Registered s)
      (kind : s.declaration.kind ≠ .module)
      (of : ArtifactRef.ofSymbol s = some t) : Known index t

namespace ArtifactRef

variable {index : SymbolIndex} {ds : List Declaration} {s : Symbol}

theorem known_pipes : Support.pipes.Known index :=
  .shared (by decide)

theorem known_classNames : Support.classNames.Known index :=
  .shared (by decide)

theorem known_observableValue : Support.observableValue.Known index :=
  .shared (by decide)

theorem known_httpClient : Support.httpClient.Known index :=
  .shared (by decide)

theorem known_component (sound : SymbolIndex.Sound ds index) (registered : index.Registered s)
    (kind : s.kind = .component) : (component s.name s.unit).Known index := by
  rw [sound.kind_eq registered] at kind
  refine .symbol registered (by simp [kind]) ?_
  cases declared : s.declaration with
  | component d => simp only [ofSymbol, declared]
  | _ => simp [declared, Declaration.kind] at kind

theorem known_service (sound : SymbolIndex.Sound ds index) (registered : index.Registered s)
    (kind : s.kind = .service) : (service s.name s.unit).Known index := by
  rw [sound.kind_eq registered] at kind
  refine .symbol registered (by simp [kind]) ?_
  cases declared : s.declaration with
  | service d => simp only [ofSymbol, declared]
  | _ => simp [declared, Declaration.kind] at kind

theorem known_directive (sound : SymbolIndex.Sound ds index) (registered : index.Registered s)
    {d : DirectiveDecl} (is : s.declaration.asDirective = .ok d) :
    (directive d.name s.unit d.directiveKind d.rendersMarkup).Known index := by
  have declared : s.declaration = .directive d := by
    cases declared : s.declaration with
    | directive d' =>
        rw [declared] at is
        cases is
        rfl
    | _ =>
        rw [declared] at is
        cases is
  have named : s.name = d.name := by
    rw [sound.eq_ofDeclaration registered, declared]
    rfl
  refine .symbol registered (by simp [declared, Declaration.kind]) ?_
  simp only [ofSymbol, declared, named]

end ArtifactRef

/-- One change of a draft while a template is converted. -/
inductive Draft.Step (index : SymbolIndex) : Draft → Draft → Prop
  | bring (d : Draft) (spec : ImportSpec) (known : ∀ t ∈ spec.target, t.Known index) :
      Step index d { d with imports := d.imports.add spec }
  | rely (d : Draft) (uses : List String) : Step index d { d with uses }
  | hold (d : Draft) (name : String) (type : Option String) (free : name ∉ d.taken) :
      Step index d { d with
        taken := d.taken ++ [name]
        body := { d.body with refs := d.body.refs ++ [{ name, initial := some "null", type }] } }
  | await (d : Draft) (name value : String) (asyncValues : Table String) (free : name ∉ d.taken) :
      Step index d { d with
        taken := d.taken ++ [name]
        asyncValues
        body := { d.body with derived := d.body.derived ++ [{ name, value }] } }
  | remember (d : Draft) (name expression : String) (deps : List String) (free : name ∉ d.taken)
      (new : d.memos.get? expression = none) :
      Step index d { d with
        taken := d.taken ++ [name]
        memos := d.memos.set expression name
        body := { d.body with memos := d.body.memos ++ [{ name, expression, deps }] } }
  | call (d : Draft) (use : String) :
      Step index d { d with body := { d.body with hookUses := d.body.hookUses ++ [use] } }
  | wrap (d : Draft) (c : ConstDecl) :
      Step index d { d with moduleConstants := d.moduleConstants ++ [c] }
  | refer (d : Draft) (elementRefs : Table String) : Step index d { d with elementRefs }
  | noteSlot (d : Draft) : Step index d { d with slotNoted := true }

/-- The work moves the draft by steps. -/
abbrev Steps (index : SymbolIndex) {α : Type} (m : Converting α) : Prop :=
  Moves (Draft.Step index) m

variable {index : SymbolIndex} {ds : List Declaration}

namespace Converting

theorem warn_steps (message : String) : Steps index (warn message) :=
  .lifted (.warn _ _)

theorem warnAt_steps (message : String) (p : Position) : Steps index (warnAt message p) :=
  .lifted (.warnAt _ _ _ _)

theorem named_steps {ref : ArtifactRef} (known : ref.Known index) (name : String) :
    Steps index (imports fun i => i.named ref name) :=
  .modify fun d => .single (.bring d _ fun _ ht => Option.some.inj ht ▸ known)

theorem defaultOf_steps {ref : ArtifactRef} (known : ref.Known index) (name : String) :
    Steps index (imports fun i => i.defaultOf ref name) :=
  .modify fun d => .single (.bring d _ fun _ ht => Option.some.inj ht ▸ known)

theorem fromPackage_steps (module : String) (names : List String) (d : Draft) :
    ReflTransGen (Draft.Step index) d
      { d with imports := Imports.fromPackage module d.imports names } := by
  induction names generalizing d with
  | nil => exact .refl
  | cons name names ih =>
      exact .head (.bring d { names := [name], module := some module } fun t ht => by cases ht) (ih _)

theorem react_steps (names : List String) : Steps index (react names) :=
  .modify (fromPackage_steps "react" names)

theorem router_steps (names : List String) : Steps index (router names) :=
  .modify (fromPackage_steps "react-router-dom" names)

theorem uses_steps (hook : String) : Steps index (uses hook) := by
  refine .modify fun d => ?_
  split
  · exact .refl
  · exact .single (.rely d _)

theorem recasting_steps {α : Type} (r : Recasting α) : Steps index (recasting r) := by
  refine Moves.get.bind fun d => ?_
  refine (Moves.modify fun d => .single (.rely d _)).bind fun _ => ?_
  exact (Moves.forM fun message _ => warn_steps message).bind fun _ => .pure _

theorem body_steps (ctx : RecastContext) (source : String) : Steps index (body ctx source) := by
  unfold body
  split
  · exact recasting_steps _
  · exact (recasting_steps _).bind fun _ => .throw _

theorem expression_steps (ctx : RecastContext) (locals : Table String) (source : String) :
    Steps index (expression ctx locals source) :=
  (Moves.lifted (.lift fun _ _ => trivial)).bind fun source => body_steps ctx source

theorem statements_steps (ctx : RecastContext) (locals : Table String) (handler : String) :
    Steps index (statements ctx locals handler) :=
  .mapM fun source _ => expression_steps ctx locals source

end Converting

/-! ### Imports -/

/-- Every import from a generated module is of a module with the property. -/
def Imports.Within (P : ArtifactRef → Prop) (i : Imports) : Prop :=
  ∀ spec ∈ i, ∀ t ∈ spec.target, P t

/-- Every import from a generated module is of a module that the run gives. -/
abbrev Imports.Known (index : SymbolIndex) (i : Imports) : Prop :=
  i.Within (·.Known index)

namespace Imports

theorem add_target {i : Imports} {new spec : ImportSpec} (h : spec ∈ i.add new) :
    spec.target = new.target ∨ ∃ old ∈ i, spec.target = old.target := by
  induction i with
  | nil =>
      simp only [add, List.mem_singleton] at h
      subst h
      exact Or.inl rfl
  | cons old rest ih =>
      simp only [add] at h
      split at h
      · rcases List.mem_cons.mp h with rfl | tail
        · exact Or.inr ⟨old, List.mem_cons_self, rfl⟩
        · exact Or.inr ⟨spec, List.mem_cons_of_mem old tail, rfl⟩
      · rcases List.mem_cons.mp h with rfl | tail
        · exact Or.inr ⟨spec, List.mem_cons_self, rfl⟩
        · rcases ih tail with same | ⟨old', mem, same⟩
          · exact Or.inl same
          · exact Or.inr ⟨old', List.mem_cons_of_mem old mem, same⟩

theorem Within.add {P : ArtifactRef → Prop} {i : Imports} {new : ImportSpec} (h : i.Within P)
    (all : ∀ t ∈ new.target, P t) : (i.add new).Within P := by
  intro spec hs t ht
  rcases add_target hs with same | ⟨old, mem, same⟩
  · exact all t (same ▸ ht)
  · exact h old mem t (same ▸ ht)

end Imports

/-! ### Growth -/

/-- The names that variables are made under. -/
def Draft.madeNames (held : List RefDecl) (awaited : List ConstDecl) (remembered : List MemoDecl) :
    List String :=
  held.map (·.name) ++ awaited.map (·.name) ++ remembered.map (·.name)

/-- What steps come to: refs, awaited values and memos are added to the body, all under new names that
are different from one another, and known imports stay known. -/
structure Draft.Grows (index : SymbolIndex) (d : Draft) (held : List RefDecl)
    (awaited : List ConstDecl) (remembered : List MemoDecl) (d' : Draft) : Prop where
  body : ∃ uses, d'.body = { d.body with
    refs := d.body.refs ++ held
    derived := d.body.derived ++ awaited
    memos := d.body.memos ++ remembered
    hookUses := d.body.hookUses ++ uses }
  taken : d'.taken.Perm (d.taken ++ madeNames held awaited remembered)
  free : ∀ name ∈ madeNames held awaited remembered, name ∉ d.taken
  nodup : (madeNames held awaited remembered).Nodup
  empty : ∀ r ∈ held, r.initial = some "null"
  known : d.imports.Known index → d'.imports.Known index

namespace Draft.Grows

variable {d d₁ d₂ : Draft} {held : List RefDecl} {awaited : List ConstDecl}
  {remembered : List MemoDecl}

theorem refl (d : Draft) : Grows index d [] [] [] d where
  body := ⟨[], by simp⟩
  taken := by simp [madeNames]
  free := by simp [madeNames]
  nodup := .nil
  empty := by simp
  known := id

/-- A name that is free now is new among those made so far. -/
theorem name (h : d.Grows index held awaited remembered d₁) {name : String} {made : List String}
    (free : name ∉ d₁.taken) (perm : made.Perm (madeNames held awaited remembered ++ [name])) :
    (d₁.taken ++ [name]).Perm (d.taken ++ made) ∧ (∀ n ∈ made, n ∉ d.taken) ∧ made.Nodup := by
  rw [h.taken.mem_iff, List.mem_append, not_or] at free
  refine ⟨?_, fun n hn => ?_, ?_⟩
  · calc d₁.taken ++ [name]
      List.Perm _ (d.taken ++ madeNames held awaited remembered ++ [name]) :=
        h.taken.append_right [name]
      List.Perm _ (d.taken ++ made) := by
        rw [List.append_assoc]
        exact perm.symm.append_left d.taken
  · rcases List.mem_append.mp (perm.mem_iff.mp hn) with old | new
    · exact h.free n old
    · rw [List.mem_singleton.mp new]
      exact free.1
  · refine perm.nodup_iff.mpr (List.nodup_append.mpr ⟨h.nodup, by simp, ?_⟩)
    intro n old n' new eq
    rw [List.mem_singleton.mp new] at eq
    exact free.2 (eq ▸ old)

/-- One more step adds at most one name, which was free. -/
theorem step (h : d.Grows index held awaited remembered d₁) (next : Step index d₁ d₂) :
    ∃ held awaited remembered, d.Grows index held awaited remembered d₂ := by
  obtain ⟨uses, body⟩ := h.body
  cases next with
  | bring spec target =>
      exact ⟨held, awaited, remembered, { h with known := fun hk => (h.known hk).add target }⟩
  | rely uses' => exact ⟨held, awaited, remembered, { h with }⟩
  | hold name type free =>
      let r : RefDecl := { name, initial := some "null", type }
      have perm : (madeNames (held ++ [r]) awaited remembered).Perm
          (madeNames held awaited remembered ++ [name]) := by
        simp only [madeNames, List.map_append, List.append_assoc]
        exact (List.perm_append_comm.append_left _).trans (by simp [r])
      obtain ⟨taken, free, nodup⟩ := h.name free perm
      refine ⟨held ++ [r], awaited, remembered, ⟨uses, by simp [body, r]⟩, taken, free, nodup, ?_,
        h.known⟩
      intro r' hr'
      rcases List.mem_append.mp hr' with old | new
      · exact h.empty r' old
      · rw [List.mem_singleton.mp new]
  | await name value asyncValues free =>
      let c : ConstDecl := { name, value }
      have perm : (madeNames held (awaited ++ [c]) remembered).Perm
          (madeNames held awaited remembered ++ [name]) := by
        simp only [madeNames, List.map_append, List.append_assoc]
        exact ((List.perm_append_comm.append_left _).append_left _).trans (by simp [c])
      obtain ⟨taken, free, nodup⟩ := h.name free perm
      exact ⟨held, awaited ++ [c], remembered, ⟨uses, by simp [body, c]⟩, taken, free, nodup,
        h.empty, h.known⟩
  | remember name expression deps free new =>
      let c : MemoDecl := { name, expression, deps }
      have perm : (madeNames held awaited (remembered ++ [c])).Perm
          (madeNames held awaited remembered ++ [name]) := by
        simp [madeNames, c]
      obtain ⟨taken, free, nodup⟩ := h.name free perm
      exact ⟨held, awaited, remembered ++ [c], ⟨uses, by simp [body, c]⟩, taken, free, nodup,
        h.empty, h.known⟩
  | call use =>
      exact ⟨held, awaited, remembered, { h with body := ⟨uses ++ [use], by simp [body]⟩ }⟩
  | wrap c => exact ⟨held, awaited, remembered, { h with }⟩
  | refer elementRefs => exact ⟨held, awaited, remembered, { h with }⟩
  | noteSlot => exact ⟨held, awaited, remembered, { h with }⟩

/-- Any number of steps make the draft grow. -/
theorem ofSteps (h : ReflTransGen (Step index) d d₁) :
    ∃ held awaited remembered, d.Grows index held awaited remembered d₁ := by
  induction h with
  | refl => exact ⟨[], [], [], refl d⟩
  | tail _ next ih =>
      obtain ⟨held, awaited, remembered, grows⟩ := ih
      exact grows.step next

end Draft.Grows

end ReactMigration
