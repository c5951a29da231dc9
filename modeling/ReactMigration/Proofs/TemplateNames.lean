import ReactMigration.Printing.Markup
import ReactMigration.Proofs.Places
import ReactMigration.Template.Parser

/-!
Identifiers in the markup of a template.

Everything in the markup that a template becomes is converted in the scope of its place, and stands
there inside of the loops of the regions around it.  So the identifiers of the template denote what
they should as far as they do at their places.
-/

namespace ReactMigration

open ReactMigration.Template
open ReactMigration.Text
open Converting (Gives)

variable {env : TemplateEnv} {base : Scope} {place : Place} {depthOf : String → Nat}

/-! ### Expressions -/

/-- The expressions of a bound value: what its pipes are applied to, and their arguments. -/
def Template.BoundValue.expressions (value : BoundValue) : List String :=
  value.base :: value.chain.flatMap (·.args)

theorem applyPipes_gives {s : Scope} {preferred : Option String} {p : Option Position} :
    ∀ {steps : List PipeStep} {progress result : Scope.PipeProgress},
      Gives (s.applyPipes env preferred p progress steps) result →
        ∀ e ∈ steps.flatMap (·.args), ∃ code, Gives (s.expression env e) code
  | [], _, _, _ => by simp
  | step :: steps, progress, result, given => by
      unfold Scope.applyPipes at given
      obtain ⟨args, first, given⟩ := given.bind
      rw [List.flatMap_cons, List.forall_mem_append]
      refine ⟨first.mapM, ?_⟩
      split at given
      · obtain ⟨code, _, given⟩ := given.bind
        exact applyPipes_gives given
      · obtain ⟨function, _, given⟩ := given.bind
        exact applyPipes_gives given

/-- Every expression of a bound value is converted in the scope of the value. -/
theorem bound_gives {s : Scope} {value : BoundValue} {preferred : Option String}
    {p : Option Position} {code : String} (given : Gives (s.bound env value preferred p) code) :
    ∀ e ∈ value.expressions, ∃ code, Gives (s.expression env e) code := by
  unfold Scope.bound at given
  cases value with
  | text expression => exact List.forall_mem_singleton.mpr ⟨code, given⟩
  | pipe name input args position =>
      obtain ⟨start, first, given⟩ := given.bind
      obtain ⟨result, applied, _⟩ := given.bind
      exact List.forall_mem_cons.mpr ⟨⟨start, first⟩, applyPipes_gives applied⟩

/-- How expressions are converted at a place: one by one, each of their identifiers replaced by its
code at the place, members through the instance until the whole is recast. -/
structure ConvertsAt (env : TemplateEnv) (base : Scope) (place : Place) : Prop where
  values : ∀ value preferred p code, Gives ((base.within place).bound env value preferred p) code →
    ∀ e ∈ value.expressions, ∃ code, Gives ((base.within place).expression env e) code
  expressions : ∀ source code, Gives ((base.within place).expression env source) code →
    Recasts env.names (base.within place).locals source code
  identifiers : ∀ name ≠ "$event",
    (env.names.image (base.within place).locals name).getD name = base.codeAt place name ∨
      env.names.image (base.within place).locals name = some ("this." ++ base.codeAt place name)

theorem convertsAt (env : TemplateEnv) {base : Scope} (distinct : base.locals.keys.Nodup)
    (place : Place) : ConvertsAt env base place where
  values _ _ _ _ given := bound_gives given
  expressions source _ given :=
    given.ensured (Converting.expression_recasts _ (base.nodup_keys_within distinct place) source)
  identifiers name other := by
    rw [RecastContext.image, Table.get?_setNew, if_neg other, Option.or_none, Scope.codeAt]
    cases (base.within place).locals.get? name with
    | none => by_cases member : name ∈ env.names.members <;> simp [member]
    | some code => by_cases same : code = name <;> simp [same]

/-! ### Heads of regions -/

/-- The key of a loop: its index, or what its items are tracked by, which does not see the loop. -/
def Template.Clauses.Keyed (c : Clauses) (env : TemplateEnv) (base : Scope) (place : Place)
    (iterable key : String) : Prop :=
  if present c.trackBy then
    Gives ((base.within (⟨.loop c iterable, false⟩ :: place)).expression env
      (c.trackBy.getD "" ++ "(" ++ c.indexName ++ ", " ++ c.itemName ++ ")")) key
  else key = c.indexName

/-- The locals of a loop are written one after the other; one that is not supported is left out. -/
theorem loopNames_gives {c : Clauses} {iterable : String} {p : Position} :
    ∀ {entries t names : Table String}, Gives (entries.foldlM (fun (t : Table String) (name, source) => do
      if source == "index" then return t
      match loopLocal? c.indexName (lengthCode iterable) source with
      | some code => return t.set name code
      | none =>
          Converting.warnAt s!"*ngFor local '{source}' is not supported" p
          return t) t : Converting (Table String)) names →
      names = Table.setAll (c.localCode? iterable) t entries
  | [], t, names, given => given.pure
  | (name, source) :: entries, t, names, given => by
      rw [List.foldlM_cons] at given
      obtain ⟨t₁, first, rest⟩ := given.bind
      rw [loopNames_gives rest, Table.setAll, Table.setAll, List.foldl_cons]
      congr 1
      dsimp only at first ⊢
      split at first
      · rename_i isIndex
        rw [eq_of_beq isIndex]
        exact first.pure
      · rw [Template.Clauses.localCode?]
        split at first
        · rename_i code made
          rw [made]
          exact first.pure
        · rename_i none
          rw [none]
          obtain ⟨_, _, last⟩ := first.bind
          exact last.pure

/-- The head of a loop: everything is named by the clauses, and the body is in the region. -/
theorem loopHead_gives {c : Clauses} {p : Position} {head : LoopHead}
    (given : Gives (loopHead env (base.within place) c p) head) :
    Gives ((base.within place).boundAt env (parseBoundValue c.expression (some p)) p) head.iterable ∧
      head.item = c.itemName ∧ head.index = c.indexName ∧
      head.scope = base.within (⟨.loop c head.iterable, true⟩ :: place) ∧
      c.Keyed env base place head.iterable head.key := by
  unfold loopHead at given
  obtain ⟨iterable, items, given⟩ := given.bind
  extract_lets item index length start at given
  obtain ⟨names, locals, given⟩ := given.bind
  have written : names = c.loopNames iterable := loopNames_gives locals
  have scope : (base.within place).child names true =
      base.within (⟨.loop c iterable, true⟩ :: place) := by
    rw [written]
    rfl
  dsimp only at given
  rw [scope] at given
  split at given
  · rename_i tracked
    obtain ⟨key, keyed, last⟩ := given.bind
    obtain rfl := last.pure
    refine ⟨items, rfl, rfl, rfl, ?_⟩
    rw [Template.Clauses.Keyed, if_pos tracked]
    exact keyed
  · rename_i untracked
    obtain ⟨_, _, given⟩ := given.bind
    obtain rfl := given.pure
    refine ⟨items, rfl, rfl, rfl, ?_⟩
    rw [Template.Clauses.Keyed, if_neg untracked]
    rfl

theorem conditionHead_gives {c : Clauses} {p : Position} {condition : String} {inner : Scope}
    (given : Gives (conditionHead env (base.within place) c p) (condition, inner)) :
    Gives ((base.within place).bound env (parseBoundValue c.expression (some p)) c.asName (some p))
        condition ∧
      inner = base.within (⟨.condition c condition, true⟩ :: place) := by
  unfold conditionHead at given
  obtain ⟨code, read, given⟩ := given.bind
  cases given.pure
  exact ⟨read, rfl⟩

/-! ### Markup at its place -/

/-- Hides all but so many of the outermost visible regions. -/
def Place.hide (n : Nat) : Place → Place
  | [] => []
  | f :: place =>
      if n ≤ (place.filter (·.visible)).length then ⟨f.region, false⟩ :: hide n place
      else f :: place

theorem Scope.within_hide (base : Scope) (n : Nat) : ∀ place : Place,
    base.within (place.hide n) = base.within place
  | [] => rfl
  | f :: place => by
      rw [Place.hide]
      split
      · rw [within, within_hide base n place]
        rfl
      · rfl

/-- Markup that is converted in the scope of its place, part by part.  `depthOf` tells how many
regions enclose a named template in the template; where its content is shown, the regions around
that place are hidden from it. -/
inductive Placed (env : TemplateEnv) (base : Scope) (depthOf : String → Nat) : Place → Markup → Prop
  | text {place : Place} (t : String) : Placed env base depthOf place (.text t)
  | nothing {place : Place} : Placed env base depthOf place .nothing
  | slot {place : Place} : Placed env base depthOf place (.expression "children")
  | value {place : Place} {value : BoundValue} {p : Position} {code : String}
      (given : Gives ((base.within place).boundAt env value p) code) :
      Placed env base depthOf place (.expression code)
  | element {place : Place} {tag : String} {attributes : List Attribute} {component : Option String}
      {start : StartTag} {attrs : List MarkupAttr} {children : List Markup}
      (starts : Gives (startTag env (base.within place) tag attributes component) start)
      (finishes : Gives (start.bag.finish start.activeClass) attrs)
      (inside : ∀ m ∈ children, Placed env base depthOf place m) :
      Placed env base depthOf place (.element start.tag attrs children)
  | group {place : Place} {children : List Markup}
      (inside : ∀ m ∈ children, Placed env base depthOf place m) :
      Placed env base depthOf place (.fragment children none)
  | conditional {place : Place} {c : Clauses} {p : Position} {condition : String} {shown : Markup}
      {otherwise : Option Markup}
      (given : Gives ((base.within place).bound env (parseBoundValue c.expression (some p)) c.asName
        (some p)) condition)
      (inside : Placed env base depthOf (⟨.condition c condition, true⟩ :: place) shown)
      (outside : ∀ m ∈ otherwise, Placed env base depthOf place m) :
      Placed env base depthOf place (.conditional condition shown otherwise)
  | choice {place : Place} {tag : String} {attributes : List Attribute} {component : Option String}
      {start : StartTag} {switch value : String} {c : Clauses} {p : Position} {shown : Markup}
      {otherwise : Option Markup}
      (starts : Gives (startTag env (base.within place) tag attributes component) start)
      (switches : start.switch = some switch)
      (given : Gives ((base.within place).boundAt env (parseBoundValue c.expression (some p)) p) value)
      (inside : Placed env base depthOf place shown)
      (outside : ∀ m ∈ otherwise, Placed env base depthOf place m) :
      Placed env base depthOf place (.conditional s!"{switch} === {value}" shown otherwise)
  | loop {place : Place} {c : Clauses} {p : Position} {iterable key : String} {body keyed : Markup}
      (given : Gives ((base.within place).boundAt env (parseBoundValue c.expression (some p)) p)
        iterable)
      (keys : c.Keyed env base place iterable key)
      (inside : Placed env base depthOf (⟨.loop c iterable, true⟩ :: place) body)
      (marked : Gives (withKey body key) keyed) :
      Placed env base depthOf place (.loop iterable c.itemName c.indexName keyed)
  | custom {place : Place} {name directive : String} {c : Clauses} {p : Position} {component : String}
      {attrs : List MarkupAttr} {body : Markup}
      (given : Gives (customHead env (base.within place) name directive c p) (component, attrs))
      (inside : Placed env base depthOf place body) :
      Placed env base depthOf place (.renderProp component attrs [] body)
  | plain {place : Place} {m : Markup} (inside : Placed env base depthOf (⟨.plain, true⟩ :: place) m) :
      Placed env base depthOf place m
  | elsewhere {place : Place} {m : Markup} (name : String)
      (inside : Placed env base depthOf (place.hide (depthOf name)) m) :
      Placed env base depthOf place m

namespace Placed

theorem ofList {ms : List Markup} (h : ∀ m ∈ ms, Placed env base depthOf place m) :
    Placed env base depthOf place (.ofList ms) := by
  unfold Markup.ofList
  split
  · exact .nothing
  · exact h _ List.mem_cons_self
  · exact .group h

theorem getD {m : Option Markup} (h : ∀ m' ∈ m, Placed env base depthOf place m') :
    Placed env base depthOf place (m.getD .nothing) := by
  cases m with
  | none => exact .nothing
  | some m => exact h m rfl

end Placed

/-- What stands for named templates is placed wherever it is shown. -/
def ContentPlaced (env : TemplateEnv) (base : Scope) (depthOf : String → Nat) (content : ContentOf) :
    Prop :=
  ∀ place name p m, Gives (content name (base.within place) p) m →
    ∀ m' ∈ m, Placed env base depthOf place m'

/-- The parts of a switch are placed, each case under the condition for its value. -/
structure SwitchPlaced (env : TemplateEnv) (base : Scope) (depthOf : String → Nat) (place : Place)
    (switch : String) (w : SwitchParts) : Prop where
  cases : ∀ entry ∈ w.cases, ∃ (c : Clauses) (p : Position) (value : String),
    Gives ((base.within place).boundAt env (parseBoundValue c.expression (some p)) p) value ∧
      entry.1 = s!"{switch} === {value}" ∧ Placed env base depthOf place entry.2
  fallback : ∀ m ∈ w.fallback, Placed env base depthOf place m
  others : ∀ m ∈ w.others, Placed env base depthOf place m

namespace SwitchPlaced

variable {switch : String} {w : SwitchParts}

theorem addCase (h : SwitchPlaced env base depthOf place switch w) {c : Clauses} {p : Position}
    {value : String} {m : Markup}
    (given : Gives ((base.within place).boundAt env (parseBoundValue c.expression (some p)) p) value)
    (inside : Placed env base depthOf place m) :
    SwitchPlaced env base depthOf place switch
      { w with cases := (s!"{switch} === {value}", m) :: w.cases } :=
  ⟨List.forall_mem_cons.mpr ⟨⟨c, p, value, given, rfl, inside⟩, h.cases⟩, h.fallback, h.others⟩

theorem addFallback (h : SwitchPlaced env base depthOf place switch w) {m : Markup}
    (inside : Placed env base depthOf place m) :
    SwitchPlaced env base depthOf place switch
      { w with fallback := w.fallback.orElse fun _ => some m } := by
  refine ⟨h.cases, fun m' mem => ?_, h.others⟩
  cases last : w.fallback with
  | none =>
      rw [last] at mem
      cases mem
      exact inside
  | some m =>
      rw [last] at mem
      cases mem
      exact h.fallback m' last

theorem addOthers (h : SwitchPlaced env base depthOf place switch w) {m : Option Markup}
    (inside : ∀ m' ∈ m, Placed env base depthOf place m') :
    SwitchPlaced env base depthOf place switch { w with others := m.toList ++ w.others } :=
  ⟨h.cases, h.fallback, List.forall_mem_append.mpr
    ⟨fun m' mem => inside m' (Option.mem_toList.mp mem), h.others⟩⟩

theorem markup {tag : String} {attributes : List Attribute} {component : Option String}
    {start : StartTag} (h : SwitchPlaced env base depthOf place switch w)
    (starts : Gives (startTag env (base.within place) tag attributes component) start)
    (switches : start.switch = some switch) :
    ∀ m ∈ w.markup, Placed env base depthOf place m := by
  have chain (cases : List (String × Markup)) (sub : cases ⊆ w.cases) :
      ∀ m ∈ cases.foldr (fun entry chain => some (Markup.conditional entry.1 entry.2 chain)) w.fallback,
        Placed env base depthOf place m := by
    induction cases with
    | nil => exact h.fallback
    | cons entry cases ih =>
        rintro m ⟨⟩
        obtain ⟨c, p, value, given, condition, inside⟩ := h.cases entry (sub List.mem_cons_self)
        rw [condition]
        exact .choice starts switches given inside (ih fun e he => sub (List.mem_cons_of_mem entry he))
  intro m mem
  rcases List.mem_append.mp mem with other | last
  · exact h.others m other
  · exact chain w.cases (List.Subset.refl _) m (Option.mem_toList.mp last)

end SwitchPlaced

theorem contentSlot_gives {attributes : List Attribute} {p : Position} {m : Markup}
    (given : Gives (contentSlot attributes p) m) : m = .expression "children" := by
  unfold contentSlot at given
  extract_lets named rest at given
  obtain ⟨d, _, given⟩ := given.bind
  split at given
  · obtain ⟨_, _, given⟩ := given.bind
    obtain ⟨_, _, given⟩ := given.bind
    exact given.pure
  · exact given.pure

mutual

theorem convertNode_placed {content : ContentOf} (shown : ContentPlaced env base depthOf content) :
    ∀ {place : Place} {region : Bool} {n : Node} {m : Option Markup},
      Gives (convertNode env content (base.within place) region n) m →
        ∀ m' ∈ m, Placed env base depthOf place m'
  | place, region, .text t p, m, given => by
      unfold convertNode at given
      cases given.pure
      rintro _ ⟨⟩
      exact .text t
  | place, region, .interpolation _ value p, m, given => by
      unfold convertNode at given
      obtain ⟨code, made, given⟩ := given.bind
      cases given.pure
      rintro _ ⟨⟩
      exact .value made
  | place, region, .element tag attributes children p selfClosing component, m, given => by
      unfold convertNode at given
      obtain ⟨start, starts, given⟩ := given.bind
      have ends {ms : List Markup} (inside : ∀ m ∈ ms, Placed env base depthOf place m)
          (given : Gives (do
            let attrs ← start.bag.finish start.activeClass
            return some (Markup.element start.tag attrs ms)) m) :
          ∀ m' ∈ m, Placed env base depthOf place m' := by
        obtain ⟨attrs, finishes, given⟩ := given.bind
        cases given.pure
        rintro _ ⟨⟩
        exact .element starts finishes inside
      dsimp only at given
      split at given
      · rename_i switch switches
        obtain ⟨parts, made, given⟩ := given.bind
        exact ends ((convertSwitch_placed shown made).markup starts switches) given
      · obtain ⟨inner, made, given⟩ := given.bind
        exact ends (convertNodes_placed shown made) given
  | place, region, .container kind attributes children p, m, given => by
      unfold convertNode at given
      have all (given : Gives (do
            return some (Markup.ofList (← convertNodes env content (base.within place) children))) m) :
          ∀ m' ∈ m, Placed env base depthOf place m' := by
        obtain ⟨inner, made, given⟩ := given.bind
        cases given.pure
        rintro _ ⟨⟩
        exact .ofList (convertNodes_placed shown made)
      split at given
      · exact all given
      · split at given
        · obtain ⟨slot, made, given⟩ := given.bind
          cases given.pure
          rintro _ ⟨⟩
          rw [contentSlot_gives made]
          exact .slot
        · split at given
          · cases given.pure
            rintro _ ⟨⟩
          · split at given
            · exact shown place _ p m given
            · exact all given
  | place, region, .structural name e clauses child p directive, m, given => by
      have inner {place : Place} {m : Option Markup}
          (made : Gives (convertNode env content (base.within place) true child) m) :
          ∀ m' ∈ m, Placed env base depthOf place m' :=
        convertNode_placed shown made
      unfold convertNode at given
      split at given
      · rename_i directive
        obtain ⟨⟨component, attrs⟩, head, given⟩ := given.bind
        obtain ⟨body, made, given⟩ := given.bind
        cases given.pure
        rintro _ ⟨⟩
        have made : Gives (convertNode env content (base.within (⟨.plain, true⟩ :: place)) true child)
          body := made
        exact .custom head (.plain (.getD (inner made)))
      · split at given
        · obtain ⟨⟨condition, scope⟩, head, given⟩ := given.bind
          obtain ⟨code, rfl⟩ := conditionHead_gives head
          have branches {first : Option Markup}
              (inside : ∀ m' ∈ first,
                Placed env base depthOf (⟨.condition clauses condition, true⟩ :: place) m')
              (given : Gives (do
                let otherwise ←
                  if present clauses.elseRef then
                    content clauses.elseRef ((base.within place).child [] false) p
                  else pure none
                return some (Markup.conditional condition (first.getD .nothing) otherwise)) m) :
              ∀ m' ∈ m, Placed env base depthOf place m' := by
            dsimp only at given
            split at given
            · obtain ⟨otherwise, made, given⟩ := given.bind
              cases given.pure
              rintro _ ⟨⟩
              refine .conditional code (.getD inside) fun m' mem => .plain ?_
              exact shown (⟨.plain, true⟩ :: place) _ p _ made m' mem
            · cases given.pure
              rintro _ ⟨⟩
              exact .conditional code (.getD inside) (by simp)
          dsimp only at given
          split at given
          · obtain ⟨first, made, given⟩ := given.bind
            exact branches (shown _ _ p _ made) given
          · obtain ⟨first, made, given⟩ := given.bind
            exact branches (inner made) given
        · split at given
          · obtain ⟨head, made, given⟩ := given.bind
            obtain ⟨code, item, index, scope, keyed⟩ := loopHead_gives made
            obtain ⟨body, made, given⟩ := given.bind
            obtain ⟨marked, marks, given⟩ := given.bind
            cases given.pure
            rintro _ ⟨⟩
            rw [item, index]
            rw [scope] at made
            exact .loop code keyed (.getD (inner made)) marks
          · have last (given : Gives (do
                  let body ← convertNode env content (base.within place) true child
                  return some (body.getD .nothing)) m) :
                ∀ m' ∈ m, Placed env base depthOf place m' := by
              obtain ⟨body, made, given⟩ := given.bind
              cases given.pure
              rintro _ ⟨⟩
              exact .getD (inner made)
            split at given
            · dsimp only at given
              split at given
              · obtain ⟨_, _, given⟩ := given.bind
                exact shown place _ p m given
              · exact shown place _ p m given
            · dsimp only at given
              split at given
              · obtain ⟨_, _, given⟩ := given.bind
                exact last given
              · exact last given

theorem convertNodes_placed {content : ContentOf} (shown : ContentPlaced env base depthOf content) :
    ∀ {place : Place} {ns : List Node} {ms : List Markup},
      Gives (convertNodes env content (base.within place) ns) ms →
        ∀ m ∈ ms, Placed env base depthOf place m
  | place, [], ms, given => by
      unfold convertNodes at given
      cases given.pure
      exact fun _ h => absurd h List.not_mem_nil
  | place, n :: ns, ms, given => by
      unfold convertNodes at given
      obtain ⟨first, one, given⟩ := given.bind
      obtain ⟨rest, more, given⟩ := given.bind
      cases given.pure
      intro m mem
      rcases List.mem_append.mp mem with here | later
      · exact convertNode_placed shown one m (Option.mem_toList.mp here)
      · exact convertNodes_placed shown more m later

theorem convertSwitch_placed {content : ContentOf} (shown : ContentPlaced env base depthOf content)
    {switch : String} :
    ∀ {place : Place} {ns : List Node} {w : SwitchParts},
      Gives (convertSwitch env content (base.within place) switch ns) w →
        SwitchPlaced env base depthOf place switch w
  | place, [], w, given => by
      unfold convertSwitch at given
      cases given.pure
      exact ⟨by simp, by simp, by simp⟩
  | place, .structural name e clauses child p directive :: ns, w, given => by
      have other (given : Gives (do
            let first ← convertNode env content (base.within place) false
              (.structural name e clauses child p directive)
            let rest ← convertSwitch env content (base.within place) switch ns
            return { rest with others := first.toList ++ rest.others }) w) :
          SwitchPlaced env base depthOf place switch w := by
        obtain ⟨first, one, given⟩ := given.bind
        obtain ⟨rest, more, given⟩ := given.bind
        cases given.pure
        exact (convertSwitch_placed shown more).addOthers (convertNode_placed shown one)
      have inner {region : Option Markup}
          (made : Gives (convertNode env content (base.within (⟨.plain, true⟩ :: place)) true child)
            region) : Placed env base depthOf place (region.getD .nothing) :=
        .plain (.getD (convertNode_placed shown made))
      unfold convertSwitch at given
      split at given
      · rename_i h
        cases h
      · rename_i h
        cases h
        obtain ⟨value, compared, given⟩ := given.bind
        obtain ⟨region, made, given⟩ := given.bind
        obtain ⟨rest, more, given⟩ := given.bind
        cases given.pure
        exact (convertSwitch_placed shown more).addCase compared (inner made)
      · rename_i h
        cases h
        obtain ⟨region, made, given⟩ := given.bind
        obtain ⟨rest, more, given⟩ := given.bind
        cases given.pure
        exact (convertSwitch_placed shown more).addFallback (inner made)
      · rename_i h
        cases h
        exact other given
  | place, .text _ _ :: ns, w, given
  | place, .interpolation _ _ _ :: ns, w, given
  | place, .element _ _ _ _ _ _ :: ns, w, given
  | place, .container _ _ _ _ :: ns, w, given => by
      unfold convertSwitch at given
      obtain ⟨first, one, given⟩ := given.bind
      obtain ⟨rest, more, given⟩ := given.bind
      cases given.pure
      exact (convertSwitch_placed shown more).addOthers (convertNode_placed shown one)

end

/-! ### Whole templates -/

theorem templateContent_placed :
    ∀ n, ContentPlaced env base depthOf (templateContent env n)
  | 0, _, _, _, _, given => (given.throw).elim
  | n + 1, place, name, p, m, given => by
      unfold templateContent at given
      have missing (given : Gives (noTemplate name p) m) :
          ∀ m' ∈ m, Placed env base depthOf place m' := by
        obtain ⟨_, _, given⟩ := given.bind
        cases given.pure
        rintro _ ⟨⟩
      split at given
      · split at given
        · rename_i ref found isTemplate
          obtain ⟨inner, made, given⟩ := given.bind
          cases given.pure
          rintro _ ⟨⟩
          -- what the template does not see around this place is in its scope all the same
          rw [← base.within_hide (depthOf (name.getD ""))] at made
          exact .elsewhere _ (.ofList (convertNodes_placed (templateContent_placed n) made))
        · exact missing given
      · exact missing given

/-- Every template reference gives at most one local, under its own name. -/
theorem referenceLocals_keys :
    ∀ {refs : Table TemplateReference} {locals : Table String},
      Gives (referenceLocals env refs) locals → locals.keys.Sublist refs.keys
  | [], locals, given => by
      cases given.pure
      exact List.Sublist.refl _
  | (name, ref) :: refs, locals, given => by
      have ends {here : List (String × String)} (own : (Table.keys here).Sublist [name])
          (given : Gives (do return here ++ (← referenceLocals env refs)) locals) :
          locals.keys.Sublist (Table.keys ((name, ref) :: refs)) := by
        obtain ⟨rest, more, given⟩ := given.bind
        cases given.pure
        rw [Table.keys, List.map_append]
        exact own.append (referenceLocals_keys more)
      unfold referenceLocals at given
      dsimp only at given
      split at given
      · exact @ends [] (List.nil_sublist _) given
      · obtain ⟨_, _, given⟩ := given.bind
        exact @ends [(name, "undefined")] (List.Sublist.refl _) given
      · have named {made : String} (given : Gives (do
            modify fun d : Draft => { d with elementRefs := d.elementRefs.set name made }
            return [(name, made ++ ".current!")] ++ (← referenceLocals env refs)) locals) :
            locals.keys.Sublist (Table.keys ((name, ref) :: refs)) := by
          obtain ⟨_, _, given⟩ := given.bind
          exact ends (List.Sublist.refl _) given
        split at given
        · exact named given
        · obtain ⟨_, _, given⟩ := given.bind
          obtain ⟨made, _, given⟩ := given.bind
          obtain ⟨_, _, given⟩ := given.bind
          obtain ⟨_, _, given⟩ := given.bind
          exact named given

/-- Everything in the markup of a template is converted in the scope of its place, and there an
identifier denotes what it denotes in the template exactly when it is left alone on the way from its
declaration: the declaring region writes its code, no region in between writes another one, and no
loop around the place binds a name of the code in its stead. -/
theorem template_names_kept_iff (env : TemplateEnv) (template : List Node) (depthOf : String → Nat)
    {markup : Option Markup} (distinct : env.refs.keys.Nodup)
    (made : Gives (convertTemplate env template) markup) :
    ∃ locals, Gives (referenceLocals env env.refs) locals ∧
      (∀ m ∈ markup, Placed env { locals } depthOf [] m) ∧
      ∀ place : Place, ConvertsAt env { locals } place ∧
        ((∀ f ∈ place, f.region.Distinct) → ∀ name,
          (Scope.Denotes { locals } place name ↔ Scope.Kept { locals } place name)) := by
  obtain ⟨_, _, made⟩ := made.bind
  obtain ⟨locals, given, made⟩ := made.bind
  obtain ⟨nodes, converted, made⟩ := made.bind
  cases made.pure
  have keys : locals.keys.Nodup := (referenceLocals_keys given).nodup distinct
  refine ⟨locals, given, ?_, fun place => ⟨convertsAt env keys place, ?_⟩⟩
  · have converted : Gives (convertNodes env (templateContent env (env.refs.length + 1))
        (Scope.within { locals } []) template) nodes := converted
    intro m mem
    split at mem
    · cases mem
    · cases mem
      exact .ofList (convertNodes_placed (templateContent_placed _) converted)
  · exact fun distinct name => Scope.denotes_iff _ distinct name

theorem rendered_of_value? {m : Converting (Option Markup)} {lines : List String}
    (h : m.value?.map (Option.map Printing.render) = some (some lines)) :
    ∃ markup, Gives m (some markup) ∧ Printing.render markup = lines := by
  obtain ⟨_, found, shown⟩ := Option.map_eq_some_iff.mp h
  obtain ⟨markup, rfl, same⟩ := Option.map_eq_some_iff.mp shown
  exact ⟨markup, Converting.gives_of_value? found, same⟩

/-- A component with rows. -/
def rowsEnv : TemplateEnv where
  index := {}
  names := { members := ["rows"] }

/-- A loop over the parts of each row, given by the clauses of the two loops. -/
def loopsOf (clauses : String × String) : List Node :=
  (Template.parse ("<i *ngFor=\"" ++ clauses.1 ++ "\"><b *ngFor=\"" ++ clauses.2 ++
    "\">\x7b\x7b f \x7d\x7d</b></i>")).toOption.getD []

/-- The place inside of both loops. -/
def insideOf (clauses : String × String) : Place :=
  [⟨.loop (parseClauses "ngFor" clauses.2) "row", true⟩,
   ⟨.loop (parseClauses "ngFor" clauses.1) "rows", true⟩]

def numberedLoops : String × String :=
  ("let row of rows; let i = index; let f = first", "let x of row; let j = index")

/-- Where both loops name their index, what is told about the outer one holds inside of both. -/
theorem template_names_kept_numberedLoops :
    ∃ m, (Gives (convertTemplate rowsEnv (loopsOf numberedLoops)) (some m) ∧
        Printing.render m = ["rows?.map((row, i) => (", "  <i key=\x7bi\x7d>",
          "    \x7brow?.map((x, j) => <b key=\x7bj\x7d>\x7b(i === 0)\x7d</b>)\x7d", "  </i>", "))"]) ∧
      Scope.Denotes {} (insideOf numberedLoops) "f" := by
  refine (rendered_of_value? (by decide +kernel)).imp fun m shown => ⟨shown, ?_⟩
  obtain ⟨locals, given, -, places⟩ :=
    template_names_kept_iff rowsEnv (loopsOf numberedLoops) (fun _ => 0) List.nodup_nil shown.1
  obtain rfl : locals = [] := given.pure
  exact ((places (insideOf numberedLoops)).2 (by decide +kernel) "f").mpr (by decide +kernel)

def nestedLoops : String × String :=
  ("let row of rows; let f = first", "let x of row")

/-- Where neither does, it is the index of the inner loop that is compared, and an `index` of the
component is out of reach. -/
theorem template_names_captured_nestedLoops :
    ∃ m, (Gives (convertTemplate rowsEnv (loopsOf nestedLoops)) (some m) ∧
        Printing.render m = ["rows?.map((row, index) => (", "  <i key=\x7bindex\x7d>",
          "    \x7brow?.map((x, index) => <b key=\x7bindex\x7d>\x7b(index === 0)\x7d</b>)\x7d",
          "  </i>", "))"]) ∧
      ¬ Scope.Denotes {} (insideOf nestedLoops) "f" ∧
      ¬ Scope.Denotes {} (insideOf nestedLoops) "index" := by
  refine (rendered_of_value? (by decide +kernel)).imp fun m shown => ⟨shown, ?_, ?_⟩
  · decide +kernel
  · decide +kernel

end ReactMigration
