import ReactMigration.Proofs.DocumentOrder
import ReactMigration.Proofs.Gathering

/-!
Keys of loops and the warnings about them.

Every loop of converted markup is made from the clauses of one loop of the template, met where its
content is shown, and its body carries the key that the clauses ask for.  A warning is noted for each
loop that is keyed by its index, and for nothing else.
-/

namespace ReactMigration

open ReactMigration.Template
open ReactMigration.Text
open Converting (outcome outcome_bind Gives)

variable {α β : Type} {env : TemplateEnv} {base : Scope}

/-! ### Loops of markup -/

/-- A loop of markup: what it runs over, its variables and its body. -/
structure MarkupLoop where
  iterable : String
  item : String
  index : String
  body : Markup

mutual

/-- The loops of markup, an outer one before those in its body. -/
def Markup.loops : Markup → List MarkupLoop
  | .element _ _ children => Markup.loopsOf children
  | .text _ => []
  | .expression _ => []
  | .fragment children _ => Markup.loopsOf children
  | .conditional _ shown none => shown.loops
  | .conditional _ shown (some otherwise) => shown.loops ++ otherwise.loops
  | .loop iterable item index body => ⟨iterable, item, index, body⟩ :: body.loops
  | .renderProp _ _ _ body => body.loops
  | .remark _ => []

def Markup.loopsOf : List Markup → List MarkupLoop
  | [] => []
  | m :: ms => m.loops ++ Markup.loopsOf ms

end

/-- The key at the root of markup: the first attribute of an element or of a render prop, or the key
of a fragment. -/
def Markup.rootKey? : Markup → Option String
  | .element _ (attr :: _) _ => if attr.name == "key" then attr.value else none
  | .renderProp _ (attr :: _) _ _ => if attr.name == "key" then attr.value else none
  | .fragment _ key => key
  | _ => none

theorem Markup.loopsOf_append (ms ns : List Markup) :
    Markup.loopsOf (ms ++ ns) = Markup.loopsOf ms ++ Markup.loopsOf ns := by
  induction ms with
  | nil => rfl
  | cons m ms ih => simp [loopsOf, ih]

theorem Markup.loopsOf_singleton (m : Markup) : Markup.loopsOf [m] = m.loops := by
  simp [loopsOf]

/-- A key changes nothing in the loops of the body, and stands at its root. -/
theorem withKey_gives {body keyed : Markup} {key : String} (given : Gives (withKey body key) keyed) :
    keyed.rootKey? = some key ∧ keyed.loops = body.loops := by
  -- What can carry no key itself is wrapped into a fragment that does.
  have wrapped (given : Gives (do
      Converting.react ["Fragment"]
      return Markup.fragment [body] (some key)) keyed) :
      keyed.rootKey? = some key ∧ keyed.loops = body.loops := by
    obtain ⟨_, _, given⟩ := given.bind
    cases given.pure
    exact ⟨rfl, by rw [Markup.loops, Markup.loopsOf_singleton]⟩
  unfold withKey at given
  cases body with
  | element tag attrs children =>
      cases given.pure
      exact ⟨rfl, by simp only [Markup.loops]⟩
  | renderProp component attrs params inner =>
      cases given.pure
      exact ⟨rfl, by simp only [Markup.loops]⟩
  | fragment children old =>
      obtain ⟨_, _, given⟩ := given.bind
      cases given.pure
      exact ⟨rfl, by simp only [Markup.loops]⟩
  | text t => exact wrapped given
  | expression code => exact wrapped given
  | conditional condition shown otherwise => exact wrapped given
  | loop iterable item index inner => exact wrapped given
  | remark comment => exact wrapped given

/-! ### Loops of a template -/

mutual

/-- The clauses of the loops met in a node in document order, `shown` giving those of named templates;
`region` tells that a structural directive governs the node. -/
def nodeLoops (shown : String → List Clauses) (region : Bool) : Node → List Clauses
  | .text _ _ => []
  | .interpolation _ _ _ => []
  | .element _ _ children _ _ _ => templateLoops shown children
  | .container kind attributes children _ =>
      if region && (kind == "ng-container" || kind == "ng-template") then templateLoops shown children
      else if kind == "ng-content" || kind == "ng-template" then []
      else
        match outletOf? attributes with
        | some expression => shown (trim expression)
        | none => templateLoops shown children
  | .structural name _ clauses child _ directive =>
      if directive.isSome then nodeLoops shown true child
      else if name == "ngIf" then
        (if present clauses.thenRef then shown (clauses.thenRef.getD "") else nodeLoops shown true child) ++
          (if present clauses.elseRef then shown (clauses.elseRef.getD "") else [])
      else if name == "ngFor" || name == "ngForOf" then clauses :: nodeLoops shown true child
      else if name == "ngTemplateOutlet" then shown clauses.expression
      else nodeLoops shown true child

def templateLoops (shown : String → List Clauses) : List Node → List Clauses
  | [] => []
  | n :: ns => nodeLoops shown false n ++ templateLoops shown ns

end

/-- The clauses of the loops met in the content of a named template, following at most so many
references within one another. -/
def contentLoops (refs : Table TemplateReference) : Nat → String → List Clauses
  | 0, _ => []
  | n + 1, name =>
      match refs.get? name with
      | some ref =>
          if ref.kind == .template then templateLoops (contentLoops refs n) ref.children else []
      | none => []

/-- Whether nothing says what the items of a loop are tracked by. -/
def Template.Clauses.isUntracked (c : Clauses) : Bool :=
  !present c.trackBy

mutual

/-- No element in the node switches over a value. -/
def Template.Node.isSwitchless : Node → Bool
  | .text _ _ => true
  | .interpolation _ _ _ => true
  | .element _ attributes children _ _ _ =>
      !attributes.any (·.isSwitch) && Template.areSwitchless children
  | .container _ _ children _ => Template.areSwitchless children
  | .structural _ _ _ child _ _ => child.isSwitchless

def Template.areSwitchless : List Node → Bool
  | [] => true
  | n :: ns => n.isSwitchless && Template.areSwitchless ns

end

/-- The loop is made from the clauses at some place of the template: it runs over what they name, with
the variables that they declare, and its body has their key at its root. -/
structure Template.Clauses.Makes (c : Clauses) (env : TemplateEnv) (base : Scope) (l : MarkupLoop) :
    Prop where
  item : l.item = c.itemName
  index : l.index = c.indexName
  placed : ∃ place p key,
    Gives ((base.within place).boundAt env (parseBoundValue c.expression (some p)) p) l.iterable ∧
      l.body.rootKey? = some key ∧ c.Keyed env base place l.iterable key

theorem Template.Clauses.indexes_of_made {cs : List Clauses} {ls : List MarkupLoop}
    (made : List.Forall₂ (·.Makes env base ·) cs ls) : ls.map (·.index) = cs.map (·.indexName) := by
  induction made with
  | nil => rfl
  | cons first _ ih => rw [List.map_cons, List.map_cons, first.index, ih]

/-! ### Counting warnings -/

/-- How many loops have been reported as keyed by their index. -/
def Sink.fallbacks (t : Sink) : Nat :=
  t.items.countP (·.code == .keyFallback)

theorem Sink.fallbacks_add (t : Sink) (severity : Severity) (code : DiagnosticCode) (message : String)
    (line column : Option Int) :
    (t.add severity code message line column).fallbacks =
      t.fallbacks + if code = .keyFallback then 1 else 0 := by
  simp [fallbacks, Sink.add, List.countP_append, List.countP_singleton]

namespace Converting

/-- From some draft the conversion gives the value, and so many more loops are reported as keyed by
their index. -/
def Tallies (m : Converting α) (a : α) (n : Int) : Prop :=
  ∃ d t d' t', outcome m d t = (.ok (a, d'), t') ∧ (t'.fallbacks : Int) = t.fallbacks + n

/-- The conversion reports no loop as keyed by its index. -/
def Mute (m : Converting α) : Prop :=
  ∀ d t a d' t', outcome m d t = (.ok (a, d'), t') → t'.fallbacks = t.fallbacks

namespace Tallies

variable {m : Converting α} {f : α → Converting β} {a : α} {n : Int}

theorem gives (h : Tallies m a n) : Gives m a := by
  obtain ⟨d, t, d', t', run, _⟩ := h
  exact ⟨d, t, d', t', run⟩

theorem mute (h : Tallies m a n) (silent : Mute m) : n = 0 := by
  obtain ⟨d, t, d', t', run, counted⟩ := h
  have same := silent d t a d' t' run
  omega

theorem pure {b : α} (h : Tallies (Pure.pure a) b n) : b = a ∧ n = 0 := by
  refine ⟨h.gives.pure, h.mute fun d t _ _ _ run => ?_⟩
  cases run
  rfl

/-- What a sequence reports is the sum of what its parts report. -/
theorem bind {b : β} (h : Tallies (m >>= f) b n) :
    ∃ a n₁ n₂, Tallies m a n₁ ∧ Tallies (f a) b n₂ ∧ n = n₁ + n₂ := by
  obtain ⟨d, t, d', t', run, counted⟩ := h
  rw [outcome_bind] at run
  split at run
  · rename_i a d₁ t₁ first
    refine ⟨a, (t₁.fallbacks : Int) - t.fallbacks, (t'.fallbacks : Int) - t₁.fallbacks,
      ⟨d, t, d₁, t₁, first, by omega⟩, ⟨d₁, t₁, d', t', run, by omega⟩, by omega⟩
  · cases run

/-- What comes after a mute part reports everything. -/
theorem after {b : β} (h : Tallies (m >>= f) b n) (silent : Mute m) :
    ∃ a, Gives m a ∧ Tallies (f a) b n := by
  obtain ⟨a, n₁, n₂, first, rest, sum⟩ := h.bind
  obtain rfl : n = n₂ := by rw [sum, first.mute silent, Int.zero_add]
  exact ⟨a, first.gives, rest⟩

end Tallies

namespace Mute

variable {m : Converting α} {f : α → Converting β}

theorem pure (a : α) : Mute (Pure.pure a : Converting α) := by
  intro d t b d' t' run
  cases run
  rfl

theorem throw (fault : Fault) : Mute (MonadExcept.throw fault : Converting α) := by
  rintro d t a d' t' ⟨⟩

theorem bind (hm : Mute m) (hf : ∀ a, Mute (f a)) : Mute (m >>= f) := by
  intro d t b d' t' run
  rw [outcome_bind] at run
  split at run
  · rename_i a d₁ t₁ first
    rw [hf a d₁ t₁ b d' t' run, hm d t a d₁ t₁ first]
  · cases run

theorem get : Mute (MonadState.get : Converting Draft) := by
  intro d t a d' t' run
  cases run
  rfl

theorem modify (f : Draft → Draft) : Mute (modify f : Converting PUnit) := by
  intro d t a d' t' run
  cases run
  rfl

theorem lift (r : Except Fault α) : Mute (liftM (Noting.lift r) : Converting α) := by
  intro d t a d' t' run
  cases r with
  | error f => cases run
  | ok b =>
      cases run
      rfl

/-- Remarks of other kinds are not counted. -/
theorem warnAt {code : DiagnosticCode} (other : code ≠ .keyFallback) (message : String)
    (line column : Option Int) :
    Mute (liftM (Noting.warnAt code message line column) : Converting Unit) := by
  intro d t a d' t' run
  cases run
  rw [Sink.fallbacks_add, if_neg other, Nat.add_zero]

theorem mapM {f : α → Converting β} (h : ∀ a, Mute (f a)) : ∀ l : List α, Mute (l.mapM f)
  | [] => by
      rw [List.mapM_nil]
      exact pure []
  | a :: l => by
      rw [List.mapM_cons]
      exact (h a).bind fun b => (mapM h l).bind fun bs => pure (b :: bs)

theorem forM {f : α → Converting PUnit} (h : ∀ a, Mute (f a)) : ∀ l : List α, Mute (l.forM f)
  | [] => pure PUnit.unit
  | a :: l => (h a).bind fun _ => forM h l

theorem foldlM {f : β → α → Converting β} (h : ∀ b a, Mute (f b a)) :
    ∀ (l : List α) (b : β), Mute (l.foldlM f b)
  | [], b => pure b
  | a :: l, b => by
      rw [List.foldlM_cons]
      exact (h b a).bind fun b => foldlM h l b

end Mute

/-! ### Parts of a conversion that report no loop -/

theorem warn_mute (message : String) : Mute (warn message) :=
  .warnAt (by decide) _ _ _

theorem warnAt_mute (message : String) (p : Position) : Mute (warnAt message p) :=
  .warnAt (by decide) _ _ _

theorem recasting_mute (r : Recasting α) : Mute (recasting r) := by
  refine Mute.get.bind fun d => ?_
  refine (Mute.modify _).bind fun _ => ?_
  exact (Mute.forM (fun message => warn_mute message) _).bind fun _ => .pure _

theorem body_mute (ctx : RecastContext) (source : String) : Mute (body ctx source) := by
  unfold body
  split
  · exact recasting_mute _
  · exact (recasting_mute _).bind fun _ => .throw _

theorem expression_mute (ctx : RecastContext) (locals : Table String) (source : String) :
    Mute (expression ctx locals source) :=
  (Mute.lift _).bind fun source => body_mute ctx source

theorem unique_mute (base : String) : Mute (unique base) :=
  Mute.get.bind fun _ => (Mute.modify _).bind fun _ => .pure _

end Converting

open Converting (Tallies Mute warn_mute warnAt_mute expression_mute unique_mute)

namespace Scope

theorem await_mute (s : Scope) (code : String) (preferred : Option String) (p : Option Position) :
    Mute (s.await code preferred p) := by
  have warned : Mute (warnMaybeAt "async pipe over a template-local value is not converted" p) := by
    cases p with
    | none => exact warn_mute _
    | some p => exact warnAt_mute _ p
  unfold await
  extract_lets locals base
  refine (Mute.lift _).bind fun names => ?_
  split
  · exact warned.bind fun _ => .pure _
  · refine Mute.get.bind fun d => ?_
    split
    · exact .pure _
    · refine (unique_mute _).bind fun name => ?_
      refine (Mute.modify _).bind fun _ => (Mute.modify _).bind fun _ => ?_
      exact (Mute.modify _).bind fun _ => .pure _

theorem remember_mute (code function : String) (sources : List String) (preferred : Option String) :
    Mute (remember code function sources preferred) := by
  unfold remember
  refine Mute.get.bind fun d => ?_
  split
  · exact .pure _
  · have deps : Mute (dependenciesOf sources) :=
      (Mute.mapM (fun _ => .lift _) _).bind fun _ => .pure _
    refine deps.bind fun deps => (unique_mute _).bind fun name => ?_
    refine (Mute.modify _).bind fun _ => (Mute.modify _).bind fun _ => ?_
    exact (Mute.modify _).bind fun _ => .pure _

theorem applyPipes_mute (env : TemplateEnv) (s : Scope) (preferred : Option String)
    (p : Option Position) :
    ∀ (steps : List PipeStep) (progress : PipeProgress), Mute (s.applyPipes env preferred p progress steps)
  | [], _ => .pure _
  | step :: steps, progress => by
      unfold applyPipes
      refine (Mute.mapM (fun _ => expression_mute _ _ _) _).bind fun args => ?_
      have next := applyPipes_mute env s preferred p steps
      split
      · exact (await_mute s _ _ p).bind fun code => next _
      · have named : Mute (pipeFunction env step.name) := by
          unfold pipeFunction
          split
          · exact (Mute.modify _).bind fun _ => .pure _
          · split
            · exact (Mute.modify _).bind fun _ => .pure _
            · exact .pure _
        exact named.bind fun function => next _

theorem bound_mute (env : TemplateEnv) (s : Scope) (value : BoundValue) (preferred : Option String)
    (p : Option Position) : Mute (s.bound env value preferred p) := by
  unfold bound
  split
  · exact expression_mute _ _ _
  · refine (expression_mute _ _ _).bind fun code => ?_
    refine (applyPipes_mute env s preferred p _ _).bind fun result => ?_
    split
    · split
      · exact remember_mute _ _ _ _
      · exact .pure _
    · exact .pure _

end Scope

open Scope (bound_mute)

theorem Handler.ofBinding_mute (ctx : RecastContext) (locals : Table String) (name handler : String)
    (p : Position) (twoWay component : Bool) (formValue : Option String) :
    Mute (Handler.ofBinding ctx locals name handler p twoWay component formValue) := by
  unfold Handler.ofBinding
  split
  split
  · exact (warnAt_mute _ p).bind fun _ => .pure _
  · extract_lets
    split
    exact (Mute.mapM (fun _ => expression_mute _ _ _) _).bind fun _ => .pure _

namespace PropBag

theorem directiveValue_mute (env : TemplateEnv) (s : Scope) (value : Option BoundValue) (p : Position) :
    Mute (directiveValue env s value p) := by
  unfold directiveValue
  split
  · exact bound_mute env s _ _ _
  · exact .throw _

theorem builtinDirective_mute (env : TemplateEnv) (s : Scope) (b : PropBag) (name : String)
    (expression : Option String) (value : Option BoundValue) (p : Position) (isBound : Bool) :
    Mute (builtinDirective env s b name expression value p isBound) := by
  have valued := directiveValue_mute env s value p
  unfold builtinDirective
  split
  · split
    · exact valued.bind fun _ => .pure _
    · exact .pure _
  · split
    · split
      · exact valued.bind fun _ => .pure _
      · exact (warnAt_mute _ p).bind fun _ => .pure _
    · exact .pure _

theorem static_mute (b : PropBag) (name : String) (value : Option String) (p : Position)
    (isComponent : Bool) : Mute (b.static name value p isComponent) := by
  unfold static
  extract_lets text prop set rest
  have placed : Mute (rest ()) := by
    unfold rest
    split
    · exact (warnAt_mute _ p).bind fun _ => .pure _
    · split
      · exact .pure _
      · split <;> exact .pure _
  split
  · exact .pure _
  · split
    · exact (warnAt_mute _ p).bind fun _ => placed
    · exact placed

theorem finish_mute (b : PropBag) (activeClass : Option String) : Mute (b.finish activeClass) := by
  have classes : Mute (b.classAttr activeClass) := by
    unfold classAttr
    extract_lets
    split
    · exact .pure _
    · split
      · exact (Mute.modify _).bind fun _ => .pure _
      · split
        · exact .pure _
        · exact (Mute.modify _).bind fun _ => .pure _
  exact classes.bind fun _ => .pure _

end PropBag

theorem directiveOptions_mute (env : TemplateEnv) (s : Scope) (u : DirectiveUse)
    (attributes : List Attribute) : Mute (directiveOptions env s u attributes) := by
  have own : Mute (ownOption env s u) := by
    unfold ownOption
    split
    · split
      · exact .pure _
      · split
        · exact (PropBag.directiveValue_mute env s _ _).bind fun _ => .pure _
        · split <;> exact .pure _
    · exact .pure _
  have other (attr : Attribute) : Mute (otherOption env s u attr) := by
    unfold otherOption
    split
    · split <;> exact .pure _
    · split
      · exact (bound_mute env s _ _ _).bind fun _ => .pure _
      · exact .pure _
    · split
      · refine (Handler.ofBinding_mute _ _ _ _ _ _ _ _).bind fun h => ?_
        split <;> exact .pure _
      · exact .pure _
    · exact .pure _
  exact own.bind fun _ => (Mute.mapM (fun entry : Attribute × Nat => other entry.1) _).bind fun _ => .pure _

theorem applyDirective_mute (env : TemplateEnv) (s : Scope) (sourceTag tag : String)
    (isComponent : Bool) (attributes : List Attribute) (b : PropBag) (u : DirectiveUse) :
    Mute (applyDirective env s sourceTag tag isComponent attributes b u) := by
  unfold applyDirective
  refine (Mute.lift _).bind fun d => ?_
  extract_lets p
  split
  · exact (warnAt_mute _ p).bind fun _ => .pure _
  · refine (directiveOptions_mute env s u attributes).bind fun options => ?_
    extract_lets rest
    split
    · exact (Mute.modify _).bind fun _ => .pure _
    · split
      · exact (warnAt_mute _ p).bind fun _ => .pure _
      · split
        · exact (warnAt_mute _ p).bind fun _ => .pure _
        · refine (Mute.modify _).bind fun _ => ?_
          have used (hostRef : String) : Mute (rest hostRef) := (Mute.modify _).bind fun _ => .pure _
          split
          · exact .bind (.pure _) fun r => used r
          · refine (unique_mute _).bind fun name => (Mute.modify _).bind fun _ => ?_
            exact (Mute.modify _).bind fun _ => .bind (.pure _) fun r => used r

theorem applyEach_mute (env : TemplateEnv) (s : Scope) (sourceTag tag : String) (isComponent : Bool)
    (attributes : List Attribute) :
    ∀ (uses : List DirectiveUse) (b : PropBag),
      Mute (applyEach env s sourceTag tag isComponent attributes b uses)
  | [], _ => .pure _
  | u :: us, b => by
      unfold applyEach
      refine (applyDirective_mute env s sourceTag tag isComponent attributes b u).bind fun _ => ?_
      exact (applyEach_mute env s sourceTag tag isComponent attributes us _).bind fun _ => .pure _

theorem addAttribute_mute (env : TemplateEnv) (s : Scope) (isComponent : Bool)
    (formValue : Option String) (consumed : List String) (e : ElementParts) (attr : Attribute) :
    Mute (addAttribute env s isComponent formValue consumed e attr) := by
  unfold addAttribute
  split
  · exact .pure _
  · cases attr with
    | static name value p =>
        dsimp only
        split
        · exact .pure _
        · split
          · exact .pure _
          · exact (PropBag.static_mute _ _ _ _ _).bind fun _ => .pure _
    | property name expression value p twoWay =>
        refine (bound_mute env s value _ _).bind fun code => ?_
        split
        · exact .pure _
        · split <;> exact .pure _
    | event name handler p twoWay =>
        exact (Handler.ofBinding_mute _ _ _ _ _ _ _ _).bind fun _ => .pure _
    | twoWay name expression p => exact .pure _
    | reference name value p =>
        refine Mute.get.bind fun d => ?_
        split
        · split
          · exact (warnAt_mute _ p).bind fun _ => .pure _
          · exact .pure _
        · exact .pure _
    | directive name expression value p isBound resolved =>
        dsimp only
        split
        · exact .pure _
        · exact (PropBag.builtinDirective_mute _ _ _ _ _ _ _ _).bind fun _ => .pure _

theorem startTag_mute (env : TemplateEnv) (s : Scope) (tag : String) (attributes : List Attribute)
    (component : Option String) : Mute (startTag env s tag attributes component) := by
  have named : Mute (elementTag env tag component) := by
    unfold elementTag
    split
    · exact (Mute.modify _).bind fun _ => .pure _
    · split
      · exact (Mute.modify _).bind fun _ => .pure _
      · exact .pure _
  have linked (tag : String) (isComponent : Bool) (e : ElementParts) :
      Mute (applyLink tag isComponent e) := by
    unfold applyLink
    split
    · exact .pure _
    · split
      · exact (Mute.modify _).bind fun _ => .pure _
      · split
        · exact (warn_mute _).bind fun _ => .pure _
        · exact (Mute.modify _).bind fun _ => .pure _
  have wrapped (tag : String) (isComponent : Bool) (wrappers : List (String × String)) :
      Mute (wrappedTag tag isComponent wrappers) := by
    unfold wrappedTag
    split
    · exact .pure _
    · exact (Mute.modify _).bind fun _ => .pure _
  unfold startTag
  refine named.bind fun r => (Mute.lift _).bind fun uses => ?_
  refine (Mute.foldlM (fun e attr => addAttribute_mute env s _ _ _ e attr) _ _).bind fun e => ?_
  refine (linked _ _ e).bind fun r => ?_
  refine (applyEach_mute env s _ _ _ _ uses _).bind fun r => ?_
  exact (wrapped _ _ _).bind fun _ => .pure _

theorem customHead_mute (env : TemplateEnv) (s : Scope) (name directive : String) (c : Clauses)
    (p : Position) : Mute (customHead env s name directive c p) := by
  unfold customHead
  split
  · exact .throw _
  · refine (Mute.lift _).bind fun d => (Mute.modify _).bind fun _ => ?_
    extract_lets rest
    have finished (main : List MarkupAttr) : Mute (rest main) := by
      refine (Mute.mapM (fun entry => ?_) _).bind fun extra => ?_
      · exact (expression_mute _ _ _).bind fun _ => .pure _
      · dsimp only
        split
        · exact (warnAt_mute _ p).bind fun _ => .pure _
        · exact .pure _
    split
    · exact .bind (.pure _) fun main => finished main
    · exact (bound_mute env s _ _ _).bind fun _ => .bind (.pure _) fun main => finished main

theorem contentSlot_mute (attributes : List Attribute) (p : Position) :
    Mute (contentSlot attributes p) := by
  unfold contentSlot
  extract_lets named
  refine Mute.get.bind fun d => ?_
  split
  · exact (Mute.modify _).bind fun _ => (warnAt_mute _ p).bind fun _ => .pure _
  · exact .pure _

theorem withKey_mute (body : Markup) (key : String) : Mute (withKey body key) := by
  unfold withKey
  extract_lets
  split
  · exact .pure _
  · exact .pure _
  · exact (Mute.modify _).bind fun _ => .pure _
  · exact (Mute.modify _).bind fun _ => .pure _

theorem referenceLocals_mute (env : TemplateEnv) (refs : Table TemplateReference) :
    Mute (referenceLocals env refs) := by
  induction refs with
  | nil => exact .pure _
  | cons entry rest ih =>
      obtain ⟨name, ref⟩ := entry
      unfold referenceLocals
      extract_lets more referred tag
      have tail (here : List (String × String)) : Mute (more here) := ih.bind fun _ => .pure _
      have refer (ref : String) : Mute (referred ref) :=
        .bind (.modify _) fun _ => .bind (.pure _) fun here => tail here
      split
      · exact .bind (.pure _) fun here => tail here
      · exact (warn_mute _).bind fun _ => .bind (.pure _) fun here => tail here
      · split
        · exact .bind (.pure _) fun ref => refer ref
        · refine Mute.get.bind fun _ => (unique_mute _).bind fun made => ?_
          refine (Mute.modify _).bind fun _ => ?_
          exact (Mute.modify _).bind fun _ => .bind (.pure _) fun ref => refer ref

/-! ### Loops and their warnings -/

/-- A loop without tracking is reported once, a tracked one not at all. -/
theorem loopHead_tallies {s : Scope} {c : Clauses} {p : Position} {head : LoopHead} {n : Int}
    (h : Tallies (loopHead env s c p) head n) : n = if c.isUntracked then 1 else 0 := by
  unfold loopHead at h
  obtain ⟨iterable, _, h⟩ := h.after (bound_mute env s _ _ _)
  extract_lets item index length start at h
  obtain ⟨names, _, h⟩ := h.after (Mute.foldlM (fun t entry => by
    split
    split
    · exact .pure _
    · split
      · exact .pure _
      · exact (warnAt_mute _ p).bind fun _ => .pure _) _ _)
  dsimp only at h
  split at h
  · rename_i tracked
    rw [if_neg (by simpa [Clauses.isUntracked] using tracked)]
    exact h.mute ((expression_mute _ _ _).bind fun _ => .pure _)
  · rename_i untracked
    rw [if_pos (by simpa [Clauses.isUntracked] using untracked)]
    obtain ⟨_, n₁, n₂, warned, rest, sum⟩ := h.bind
    obtain ⟨d, t, d', t', run, counted⟩ := warned
    cases run
    rw [Sink.fallbacks_add, if_pos rfl] at counted
    rw [rest.mute (.bind (.pure _) fun _ => .pure _)] at sum
    omega

/-- The loops of markup are made from the clauses in order, and those that are keyed by their index
have been reported. -/
structure Tallied (env : TemplateEnv) (base : Scope) (cs : List Clauses) (ms : List Markup) (n : Int) :
    Prop where
  made : List.Forall₂ (·.Makes env base ·) cs (Markup.loopsOf ms)
  reported : n = cs.countP (·.isUntracked)

namespace Tallied

variable {cs ds : List Clauses} {m : Markup} {ms ns : List Markup} {k l : Int}

/-- Markup without loops, which nothing is reported about. -/
theorem none (plain : Markup.loopsOf ms = []) (silent : k = 0) : Tallied env base [] ms k :=
  ⟨plain ▸ .nil, silent⟩

/-- Markup that has the same loops. -/
theorem congr (h : Tallied env base cs ms k) (same : Markup.loopsOf ns = Markup.loopsOf ms) :
    Tallied env base cs ns k :=
  ⟨same ▸ h.made, h.reported⟩

theorem append (h : Tallied env base cs ms k) (more : Tallied env base ds ns l) :
    Tallied env base (cs ++ ds) (ms ++ ns) (k + l) := by
  refine ⟨?_, ?_⟩
  · rw [Markup.loopsOf_append]
    exact List.rel_append h.made more.made
  · rw [List.countP_append, Int.natCast_add, h.reported, more.reported]

theorem ofList (h : Tallied env base cs ms k) : Tallied env base cs [.ofList ms] k := by
  refine h.congr ?_
  unfold Markup.ofList
  split <;> simp [Markup.loopsOf, Markup.loops, Markup.nothing]

theorem getD {m : Option Markup} (h : Tallied env base cs m.toList k) :
    Tallied env base cs [m.getD .nothing] k := by
  refine h.congr ?_
  cases m <;> simp [Markup.loopsOf, Markup.loops, Markup.nothing]

end Tallied

/-- What stands for a named template has the loops of its content. -/
def ContentTallied (env : TemplateEnv) (base : Scope) (content : ContentOf)
    (shown : String → List Clauses) : Prop :=
  ∀ place name p m n, Tallies (content name (base.within place) p) m n →
    Tallied env base (shown (name.getD "")) m.toList n

mutual

theorem convertNode_tallied {content : ContentOf} {shown : String → List Clauses}
    (referred : ContentTallied env base content shown) :
    ∀ {place : Place} {region : Bool} {node : Node} {m : Option Markup} {n : Int},
      node.isSwitchless = true →
      Tallies (convertNode env content (base.within place) region node) m n →
      Tallied env base (nodeLoops shown region node) m.toList n
  | place, region, .text t p, m, n, _, h => by
      unfold convertNode at h
      obtain ⟨rfl, silent⟩ := h.pure
      exact .none (by simp [Markup.loopsOf, Markup.loops]) silent
  | place, region, .interpolation _ value p, m, n, _, h => by
      unfold convertNode at h
      obtain ⟨code, _, h⟩ := h.after (bound_mute _ _ _ _ _)
      obtain ⟨rfl, silent⟩ := h.pure
      exact .none (by simp [Markup.loopsOf, Markup.loops]) silent
  | place, region, .element tag attributes children p selfClosing component, m, n, plain, h => by
      simp only [Node.isSwitchless, Bool.and_eq_true, Bool.not_eq_true'] at plain
      unfold convertNode at h
      obtain ⟨start, starts, h⟩ := h.after (startTag_mute _ _ _ _ _)
      rw [startTag_switch plain.1 starts] at h
      obtain ⟨inner, n₁, n₂, made, h, sum⟩ := h.bind
      obtain ⟨attrs, _, h⟩ := h.after (PropBag.finish_mute _ _)
      obtain ⟨rfl, silent⟩ := h.pure
      obtain rfl : n = n₁ := by rw [sum, silent, Int.add_zero]
      rw [nodeLoops]
      exact (convertNodes_tallied referred plain.2 made).congr (by simp [Markup.loopsOf, Markup.loops])
  | place, region, .container kind attributes children p, m, n, plain, h => by
      rw [Node.isSwitchless] at plain
      -- Governed by a directive, or being a group itself, the container stands for its children.
      have all (h : Tallies (do
          return some (Markup.ofList (← convertNodes env content (base.within place) children))) m n) :
          Tallied env base (templateLoops shown children) m.toList n := by
        obtain ⟨inner, n₁, n₂, made, h, sum⟩ := h.bind
        obtain ⟨rfl, silent⟩ := h.pure
        obtain rfl : n = n₁ := by rw [sum, silent, Int.add_zero]
        exact (convertNodes_tallied referred plain made).ofList
      unfold convertNode at h
      unfold nodeLoops
      split at h
      · rename_i grouped
        rw [if_pos grouped]
        exact all h
      · rename_i single
        rw [if_neg single]
        split at h
        · rename_i isSlot
          rw [if_pos (by simp [isSlot])]
          obtain ⟨slot, made, h⟩ := h.after (contentSlot_mute _ _)
          obtain ⟨rfl, silent⟩ := h.pure
          exact .none (by simp [contentSlot_gives made, Markup.loopsOf, Markup.loops]) silent
        · rename_i noSlot
          split at h
          · rename_i isTemplate
            rw [if_pos (by simp [isTemplate])]
            obtain ⟨rfl, silent⟩ := h.pure
            exact .none rfl silent
          · rename_i noTemplate
            rw [if_neg (by simp [noSlot, noTemplate])]
            cases outlet : outletOf? attributes with
            | some expression =>
                rw [outlet] at h
                exact referred place _ p m n h
            | none =>
                rw [outlet] at h
                exact all h
  | place, region, .structural name e clauses child p directive, m, n, plain, h => by
      rw [Node.isSwitchless] at plain
      have inner {place : Place} {m : Option Markup} {n : Int}
          (made : Tallies (convertNode env content (base.within place) true child) m n) :
          Tallied env base (nodeLoops shown true child) m.toList n :=
        convertNode_tallied referred plain made
      unfold convertNode at h
      unfold nodeLoops
      split at h
      · obtain ⟨⟨component, attrs⟩, _, h⟩ := h.after (customHead_mute _ _ _ _ _ _)
        obtain ⟨body, n₁, n₂, made, h, sum⟩ := h.bind
        obtain ⟨rfl, silent⟩ := h.pure
        obtain rfl : n = n₁ := by rw [sum, silent, Int.add_zero]
        have made : Tallies (convertNode env content (base.within (⟨.plain, true⟩ :: place)) true child)
          body n := made
        rw [if_pos (by simp)]
        exact (inner made).getD.congr (by simp [Markup.loopsOf, Markup.loops])
      · rw [if_neg (by simp)]
        split at h
        · rename_i isCondition
          rw [if_pos isCondition]
          obtain ⟨⟨condition, scope⟩, head, h⟩ := h.after ((bound_mute _ _ _ _ _).bind fun _ => .pure _)
          obtain ⟨_, rfl⟩ := conditionHead_gives head
          have branches {cs : List Clauses} {first : Option Markup} {n₁ n₂ : Int}
              (within : Tallied env base cs first.toList n₁)
              (h : Tallies (do
                let otherwise ←
                  if present clauses.elseRef then
                    content clauses.elseRef ((base.within place).child [] false) p
                  else pure none
                return some (Markup.conditional condition (first.getD .nothing) otherwise)) m n₂) :
              Tallied env base
                (cs ++ if present clauses.elseRef then shown (clauses.elseRef.getD "") else [])
                m.toList (n₁ + n₂) := by
            dsimp only at h
            split at h
            · rename_i other
              obtain ⟨otherwise, n₃, n₄, made, h, sum⟩ := h.bind
              obtain ⟨rfl, silent⟩ := h.pure
              obtain rfl : n₂ = n₃ := by rw [sum, silent, Int.add_zero]
              rw [if_pos other]
              have made : Tallies (content clauses.elseRef (base.within (⟨.plain, true⟩ :: place)) p)
                otherwise n₂ := made
              refine (within.getD.append (referred _ _ p _ _ made)).congr ?_
              cases otherwise <;> simp [Markup.loopsOf, Markup.loops]
            · rename_i single
              obtain ⟨_, otherwise, h⟩ := h.after (.pure _)
              obtain rfl := otherwise.pure
              obtain ⟨rfl, silent⟩ := h.pure
              rw [if_neg single, silent, List.append_nil, Int.add_zero]
              exact within.getD.congr (by simp [Markup.loopsOf, Markup.loops])
          dsimp only at h
          split at h
          · rename_i named
            obtain ⟨first, n₁, n₂, made, rest, rfl⟩ := h.bind
            rw [if_pos named]
            exact branches (referred _ _ p _ _ made) rest
          · rename_i unnamed
            obtain ⟨first, n₁, n₂, made, rest, rfl⟩ := h.bind
            rw [if_neg unnamed]
            exact branches (inner made) rest
        · rename_i noCondition
          rw [if_neg noCondition]
          split at h
          · rename_i isLoop
            rw [if_pos isLoop]
            obtain ⟨head, n₁, n₂, headed, h, sum⟩ := h.bind
            obtain ⟨body, n₃, n₄, made, h, sum'⟩ := h.bind
            obtain ⟨keyed, marked, h⟩ := h.after (withKey_mute _ _)
            obtain ⟨rfl, silent⟩ := h.pure
            obtain ⟨items, item, index, scope, key⟩ := loopHead_gives headed.gives
            obtain ⟨rooted, same⟩ := withKey_gives marked
            rw [scope] at made
            obtain ⟨within, reported⟩ := (inner made).getD
            rw [Markup.loopsOf_singleton] at within
            refine ⟨?_, ?_⟩
            · simp only [Option.toList_some, Markup.loopsOf_singleton, Markup.loops, same]
              exact .cons ⟨item, index, place, p, head.key, items, rooted, key⟩ within
            · rw [sum, sum', silent, loopHead_tallies headed, reported, List.countP_cons]
              split <;> omega
          · rename_i noLoop
            rw [if_neg noLoop]
            split at h
            · rename_i outlet
              rw [if_pos outlet]
              have shows (h : Tallies (content (some clauses.expression) (base.within place) p) m n) :
                  Tallied env base (shown clauses.expression) m.toList n := referred _ _ p _ _ h
              split at h
              · obtain ⟨_, _, h⟩ := h.after (warnAt_mute _ p)
                exact shows h
              · exact shows h
            · rename_i other
              rw [if_neg other]
              have last (h : Tallies (do
                  let body ← convertNode env content (base.within place) true child
                  return some (body.getD .nothing)) m n) :
                  Tallied env base (nodeLoops shown true child) m.toList n := by
                obtain ⟨body, n₁, n₂, made, h, sum⟩ := h.bind
                obtain ⟨rfl, silent⟩ := h.pure
                obtain rfl : n = n₁ := by rw [sum, silent, Int.add_zero]
                exact (inner made).getD
              dsimp only at h
              split at h
              · obtain ⟨_, _, h⟩ := h.after (warnAt_mute _ p)
                exact last h
              · exact last h

theorem convertNodes_tallied {content : ContentOf} {shown : String → List Clauses}
    (referred : ContentTallied env base content shown) :
    ∀ {place : Place} {nodes : List Node} {ms : List Markup} {n : Int},
      Template.areSwitchless nodes = true →
      Tallies (convertNodes env content (base.within place) nodes) ms n →
      Tallied env base (templateLoops shown nodes) ms n
  | place, [], ms, n, _, h => by
      unfold convertNodes at h
      obtain ⟨rfl, silent⟩ := h.pure
      exact .none rfl silent
  | place, node :: nodes, ms, n, plain, h => by
      simp only [Template.areSwitchless, Bool.and_eq_true] at plain
      unfold convertNodes at h
      obtain ⟨first, n₁, n₂, one, h, sum⟩ := h.bind
      obtain ⟨rest, n₃, n₄, more, h, sum'⟩ := h.bind
      obtain ⟨rfl, silent⟩ := h.pure
      obtain rfl : n = n₁ + n₃ := by rw [sum, sum', silent, Int.add_zero]
      exact (convertNode_tallied referred plain.1 one).append (convertNodes_tallied referred plain.2 more)

end

theorem templateContent_tallied
    (plain : ∀ entry ∈ env.refs, Template.areSwitchless entry.2.children = true) :
    ∀ n, ContentTallied env base (templateContent env n) (contentLoops env.refs n)
  | 0, place, name, p, m, k, h => absurd h.gives Gives.throw
  | n + 1, place, name, p, m, k, h => by
      have missing (h : Tallies (noTemplate name p) m k) : Tallied env base [] m.toList k := by
        have mute : Mute (noTemplate name p) := (Mute.warnAt (by decide) _ _ _).bind fun _ => .pure _
        obtain ⟨_, _, last⟩ := h.gives.bind
        exact .none (by rw [last.pure]; rfl) (h.mute mute)
      unfold templateContent at h
      unfold contentLoops
      cases found : env.refs.get? (name.getD "") with
      | some ref =>
          rw [found] at h
          dsimp only at h ⊢
          split at h
          · rename_i isTemplate
            rw [if_pos isTemplate]
            obtain ⟨inner, n₁, n₂, made, h, sum⟩ := h.bind
            obtain ⟨rfl, silent⟩ := h.pure
            obtain rfl : k = n₁ := by rw [sum, silent, Int.add_zero]
            have content := templateContent_tallied plain n
            exact (convertNodes_tallied content (plain _ (Table.mem_of_get? found)) made).ofList
          · rename_i other
            rw [if_neg other]
            exact missing h
      | none =>
          rw [found] at h
          exact missing h

/-- Every loop in the markup of a template without switches is made from the clauses of a loop of the
template, in the order in which they are met when named templates are shown, and has their key at the
root of its body: its index, unless the items are tracked.  Of all these loops those without tracking
are reported, each time they are met. -/
theorem convertTemplate_keys {template : List Node} {markup : Option Markup} {d d' : Draft}
    {t t' : Sink} (plain : Template.areSwitchless template = true)
    (plainRefs : ∀ entry ∈ env.refs, Template.areSwitchless entry.2.children = true)
    (run : outcome (convertTemplate env template) d t = (.ok (markup, d'), t')) :
    ∃ locals, Gives (referenceLocals env env.refs) locals ∧
      List.Forall₂ (·.Makes env { locals } ·)
        (templateLoops (contentLoops env.refs (env.refs.length + 1)) template)
        (Markup.loopsOf markup.toList) ∧
      t'.fallbacks = t.fallbacks +
        (templateLoops (contentLoops env.refs (env.refs.length + 1)) template).countP
          (·.isUntracked) := by
  have h : Tallies (convertTemplate env template) markup (t'.fallbacks - t.fallbacks) :=
    ⟨d, t, d', t', run, by omega⟩
  unfold convertTemplate at h
  obtain ⟨_, _, h⟩ := h.after (.modify _)
  obtain ⟨locals, found, h⟩ := h.after (referenceLocals_mute env env.refs)
  obtain ⟨nodes, n₁, n₂, made, h, sum⟩ := h.bind
  obtain ⟨rfl, silent⟩ := h.pure
  have atTop : Tallies (convertNodes env (templateContent env (env.refs.length + 1))
      (Scope.within { locals } []) template) nodes n₁ := made
  have inner := convertNodes_tallied (templateContent_tallied plainRefs _) plain atTop
  have whole : Tallied env { locals }
      (templateLoops (contentLoops env.refs (env.refs.length + 1)) template)
      (if nodes.isEmpty then none else some (Markup.ofList nodes)).toList n₁ := by
    cases nodes with
    | nil => exact inner
    | cons n ns => exact inner.ofList
  refine ⟨locals, found, whole.made, ?_⟩
  have reported := whole.reported
  omega

/-- A template with a loop of its own, and what shows it: a tracked loop, and a condition in a loop
over nothing but text. -/
def partsRef : TemplateReference where
  name := "parts"
  kind := .template
  node := .container "ng-template" [.reference "parts" "" {}]
    [.structural "ngFor" "let part of rows" { expression := "rows", item := some "part" }
      (.interpolation "part" (.text "part") {}) {} none] {}

def partsTemplate : List Node :=
  [.structural "ngFor" "let row of rows; trackBy: byId"
      { expression := "rows", item := some "row", trackBy := some "byId" }
      (.element "p" [] [.structural "ngTemplateOutlet" "parts" { expression := "parts" }
        (.container "ng-container" [] [] {}) {} none] {} false none) {} none,
   .structural "ngFor" "let row of rows; index as i"
      { expression := "rows", item := some "row", locals := [("i", "index")] }
      (.structural "ngIf" "row; else parts" { expression := "row", elseRef := some "parts" }
        (.text "a row" {}) {} none) {} none]

theorem convertTemplate_keys_partsTemplate :
    ∃ markup d' t', outcome (convertTemplate { rowsEnv with refs := [("parts", partsRef)] } partsTemplate)
        {} { unit := "rows" } = (.ok (markup, d'), t') ∧
      (Markup.loopsOf markup.toList).map (·.index) = ["index", "index", "i", "index"] ∧
      t'.fallbacks = 3 := by
  have converted : ((convertTemplate { rowsEnv with refs := [("parts", partsRef)] }
      partsTemplate).value?).isSome = true := by
    decide +kernel
  unfold Converting.value? at converted
  split at converted
  · rename_i markup d' result
    refine ⟨markup, d', _, Prod.ext result rfl, ?_⟩
    obtain ⟨locals, _, made, reported⟩ :=
      convertTemplate_keys (by decide) (by decide) (Prod.ext result rfl)
    refine ⟨(Clauses.indexes_of_made made).trans ?_, reported.trans ?_⟩
    · decide
    · decide
  · cases converted

end ReactMigration
