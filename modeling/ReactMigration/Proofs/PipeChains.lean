import Mathlib.Data.List.Nodup
import ReactMigration.Proofs.FrameworkPasses
import ReactMigration.Proofs.Gathering
import ReactMigration.Proofs.Recasting
import ReactMigration.Proofs.Substitution
import ReactMigration.Proofs.Templates

/-!
Bound expressions with pipes.

Pipes are applied from left to right, each to what the one before has given.  Outside of every region
a chain of pure pipes is remembered, once for every code that it comes to.
-/

namespace ReactMigration

open ReactMigration.Template
open ReactMigration.Text
open Converting (outcome outcome_bind)
open Relation (ReflTransGen)

/-! ### Work that leaves the names alone -/

/-- Nothing has changed but the imports and the hooks that code relies on. -/
def Draft.SameNames (d d' : Draft) : Prop :=
  ∃ imports uses, d' = { d with imports, uses }

namespace Draft.SameNames

variable {d d' d'' : Draft}

theorem refl (d : Draft) : d.SameNames d :=
  ⟨d.imports, d.uses, rfl⟩

theorem trans (h : d.SameNames d') (h' : d'.SameNames d'') : d.SameNames d'' := by
  obtain ⟨imports, uses, rfl⟩ := h
  obtain ⟨imports', uses', rfl⟩ := h'
  exact ⟨imports', uses', rfl⟩

end Draft.SameNames

namespace Converting

variable {α β : Type}

/-- Whatever the draft, the work comes to the result and leaves the names alone. -/
def Settles (m : Converting α) : Except Fault α → Prop
  | .ok a => ∀ d t, ∃ d' t', outcome m d t = (.ok (a, d'), t') ∧ d.SameNames d'
  | .error f => ∀ d t, ∃ t', outcome m d t = (.error f, t')

namespace Settles

theorem pure (a : α) : Settles (Pure.pure a) (.ok a) :=
  fun d t => ⟨d, t, rfl, .refl d⟩

theorem bind {m : Converting α} {f : α → Converting β} {r : Except Fault α} {g : α → Except Fault β}
    (hm : Settles m r) (hf : ∀ a, r = .ok a → Settles (f a) (g a)) : Settles (m >>= f) (r >>= g) := by
  cases r with
  | error e =>
      intro d t
      obtain ⟨t', run⟩ := hm d t
      exact ⟨t', by rw [outcome_bind, run]⟩
  | ok a =>
      have next := hf a rfl
      change Settles (m >>= f) (g a)
      cases given : g a with
      | error e =>
          rw [given] at next
          intro d t
          obtain ⟨d₁, t₁, run, -⟩ := hm d t
          obtain ⟨t', run'⟩ := next d₁ t₁
          exact ⟨t', by rw [outcome_bind, run]; exact run'⟩
      | ok b =>
          rw [given] at next
          intro d t
          obtain ⟨d₁, t₁, run, same⟩ := hm d t
          obtain ⟨d', t', run', same'⟩ := next d₁ t₁
          exact ⟨d', t', by rw [outcome_bind, run]; exact run', same.trans same'⟩

theorem throw (fault : Fault) : Settles (MonadExcept.throw fault : Converting α) (.error fault) :=
  fun _ t => ⟨t, rfl⟩

/-- Work that comes to a result gives nothing else. -/
theorem gives {m : Converting α} {r : Except Fault α} {a : α} (h : Settles m r) (given : Gives m a) : r = .ok a := by
  obtain ⟨d, t, d', t', run⟩ := given
  cases r with
  | error fault =>
      obtain ⟨_, run'⟩ := h d t
      rw [run] at run'
      cases run'
  | ok b =>
      obtain ⟨_, _, run', -⟩ := h d t
      rw [run] at run'
      cases run'
      rfl

theorem lift (r : Except Fault α) : Settles (liftM (Noting.lift r)) r := by
  cases r with
  | error f => exact fun d t => ⟨t, rfl⟩
  | ok a => exact fun d t => ⟨d, t, rfl, .refl d⟩

theorem mapM {f : α → Converting β} {g : α → Except Fault β} (h : ∀ a, Settles (f a) (g a)) :
    ∀ l : List α, Settles (l.mapM f) (l.mapM g)
  | [] => by
      rw [List.mapM_nil, List.mapM_nil]
      exact pure []
  | a :: l => by
      rw [List.mapM_cons, List.mapM_cons]
      exact (h a).bind fun b _ => (mapM h l).bind fun bs _ => pure (b :: bs)

end Settles

end Converting

/-! ### Codes -/

/-- What the recasting of a body comes to: its code, unless a replacement cannot be read. -/
def Recast.result (ctx : RecastContext) (source : String) : Except Fault String :=
  match refusal? ctx source with
  | none => .ok (Recast.text ctx source)
  | some (_, fault) => .error fault

theorem Recast.eq_of_result {ctx : RecastContext} {source code : String} (found : Recast.result ctx source = .ok code) :
    Recast.text ctx source = code := by
  unfold Recast.result at found
  split at found
  · exact Except.ok.inj found
  · cases found

theorem RecastContext.Unescaped.result {ctx : RecastContext} (unescaped : ctx.Unescaped) (source : String) :
    Recast.result ctx source = .ok (Recast.text ctx source) := by
  rw [Recast.result, unescaped.refusal?_eq_none]

/-- The code of an expression. -/
def Scope.codeOf (env : TemplateEnv) (s : Scope) (text : String) : Except Fault String := do
  Recast.result env.names (← Recast.expressionBody env.names s.locals text)

/-- The function of a pipe, and whether it is known and pure. -/
def TemplateEnv.pipe (env : TemplateEnv) (name : String) : String × Bool :=
  match Framework.pipes.get? name with
  | some function => (function, true)
  | none =>
      match env.index.pipe name with
      | some { declaration := .pipe d, .. } => (Naming.pipeFunctionName d.pipeName, d.pure)
      | _ => (Naming.pipeFunctionName name, false)

namespace Scope

variable {env : TemplateEnv}

theorem warnings_settle (messages : List String) : Converting.Settles (messages.forM Converting.warn) (.ok ()) := by
  induction messages with
  | nil => exact .pure ()
  | cons message messages ih =>
      intro d t
      obtain ⟨d', t', run, same⟩ := ih d (t.add .warning .unsupportedConstruct message none none)
      exact ⟨d', t', run, same⟩

theorem recasting_settles {α : Type} {r : Recasting α} (blind : r.Blind) :
    Converting.Settles (Converting.recasting r) (.ok (r.run {}).1) := by
  intro d t
  have value := blind { uses := d.uses } {}
  obtain ⟨d', t', run, same⟩ := warnings_settle (r.run { uses := d.uses }).2.warnings
    { d with uses := (r.run { uses := d.uses }).2.uses } t
  refine ⟨d', t', ?_, .trans ⟨d.imports, _, rfl⟩ same⟩
  rw [← value]
  -- what is read, written and given back around the warnings is known
  have whole : outcome (Converting.recasting r) d t =
      outcome (do
        (r.run { uses := d.uses }).2.warnings.forM Converting.warn
        return (r.run { uses := d.uses }).1) { d with uses := (r.run { uses := d.uses }).2.uses } t := rfl
  rw [whole, outcome_bind, run]
  rfl

theorem body_settles (ctx : RecastContext) (source : String) :
    Converting.Settles (Converting.body ctx source) (Recast.result ctx source) := by
  unfold Converting.body Recast.result
  cases Recast.refusal? ctx source with
  | none => exact recasting_settles (Recast.body_blind _ _)
  | some refused =>
      exact (recasting_settles (Recast.body_blind _ _)).bind (g := fun _ => .error refused.2) fun _ _ => .throw _

theorem expression_settles (env : TemplateEnv) (s : Scope) (text : String) :
    Converting.Settles (s.expression env text) (s.codeOf env text) :=
  (Converting.Settles.lift _).bind fun source _ => body_settles env.names source

theorem settles_of_codeOf {env : TemplateEnv} {s : Scope} {text code : String} (found : s.codeOf env text = .ok code) :
    Converting.Settles (s.expression env text) (.ok code) :=
  found ▸ expression_settles env s text

theorem pipeFunction_settles (env : TemplateEnv) (name : String) :
    Converting.Settles (pipeFunction env name) (.ok (env.pipe name)) := by
  intro d t
  unfold pipeFunction TemplateEnv.pipe
  cases Framework.pipes.get? name with
  | some function => exact ⟨_, t, rfl, _, d.uses, rfl⟩
  | none =>
      cases env.index.pipe name with
      | none => exact ⟨d, t, rfl, .refl d⟩
      | some symbol =>
          obtain ⟨_, _, unit, declaration⟩ := symbol
          cases declaration with
          | pipe _ => exact ⟨_, t, rfl, _, d.uses, rfl⟩
          | _ => exact ⟨d, t, rfl, .refl d⟩

/-! ### Chains -/

/-- The code of a call. -/
def callCode (function : String) (args : List String) : String :=
  let joined := ", ".intercalate args
  s!"{function}({joined})"

/-- Calls of pipes around one another, the first of them around the base. -/
def chainCode (env : TemplateEnv) (base : String) (calls : List (PipeStep × List String)) : String :=
  calls.foldl (fun code call => callCode (env.pipe call.1.name).1 (code :: call.2)) base

/-- The codes of the arguments of pipes. -/
def argCodes (env : TemplateEnv) (s : Scope) (steps : List PipeStep) : Except Fault (List (List String)) :=
  steps.mapM fun step => step.args.mapM (s.codeOf env)

/-- Where applying pipes to arguments leads. -/
def PipeProgress.after (env : TemplateEnv) (progress : PipeProgress) (steps : List PipeStep)
    (args : List (List String)) : PipeProgress where
  code := chainCode env progress.code (steps.zip args)
  sources := progress.sources ++ args.flatten
  pure := progress.pure && steps.all fun step => (env.pipe step.name).2
  lastFunction := (steps.getLast?.map fun step => (env.pipe step.name).1).or progress.lastFunction

theorem PipeProgress.after_nil (progress : PipeProgress) : progress.after env [] [] = progress := by
  simp [after, chainCode]

theorem PipeProgress.after_cons (progress : PipeProgress) (step : PipeStep) (steps : List PipeStep)
    (args : List String) (more : List (List String)) :
    progress.after env (step :: steps) (args :: more) =
      after env
        { code := callCode (env.pipe step.name).1 (progress.code :: args)
          sources := progress.sources ++ args
          pure := progress.pure && (env.pipe step.name).2
          lastFunction := some (env.pipe step.name).1 } steps more := by
  have last : ((step :: steps).getLast?.map fun step => (env.pipe step.name).1).or progress.lastFunction =
      (steps.getLast?.map fun step => (env.pipe step.name).1).or (some (env.pipe step.name).1) := by
    rw [List.getLast?_cons]
    cases steps.getLast? <;> rfl
  simp only [after, last, chainCode, List.zip_cons_cons, List.foldl_cons, List.flatten_cons,
    List.all_cons, List.append_assoc, Bool.and_assoc]

/-- Pipes that do not wait are applied one around the other. -/
theorem applyPipes_settles (env : TemplateEnv) (s : Scope) (preferred : Option String) (p : Option Position) :
    ∀ {steps : List PipeStep} (progress : PipeProgress), (∀ step ∈ steps, step.name ≠ Framework.asyncPipe) →
      Converting.Settles (applyPipes env s preferred p progress steps)
        ((s.argCodes env steps).map (progress.after env steps))
  | [], progress, _ => by
      have same : (s.argCodes env []).map (progress.after env []) = .ok progress :=
        congrArg Except.ok progress.after_nil
      rw [same]
      exact .pure progress
  | step :: steps, progress, plain => by
      obtain ⟨here, later⟩ := List.forall_mem_cons.mp plain
      have parts : (s.argCodes env (step :: steps)).map (progress.after env (step :: steps)) = (do
          let args ← step.args.mapM (s.codeOf env)
          let pipe ← .ok (env.pipe step.name)
          (s.argCodes env steps).map (PipeProgress.after env
            { code := callCode pipe.1 (progress.code :: args), sources := progress.sources ++ args
              pure := progress.pure && pipe.2, lastFunction := some pipe.1 } steps)) := by
        rw [argCodes, List.mapM_cons]
        cases step.args.mapM (s.codeOf env) with
        | error f => rfl
        | ok args =>
            change Except.map _ (s.argCodes env steps >>= fun more => .ok (args :: more)) = _
            cases s.argCodes env steps with
            | error f => rfl
            | ok more => exact congrArg Except.ok (progress.after_cons step steps args more)
      rw [parts]
      unfold applyPipes
      refine (Converting.Settles.mapM (expression_settles env s) step.args).bind fun args _ => ?_
      rw [if_neg (by simpa using here)]
      exact (pipeFunction_settles env step.name).bind fun _ _ => applyPipes_settles env s preferred p _ later

/-! ### Remembered codes -/

/-- The names that are read in codes, but for those that never change. -/
def dependencyNames (sources : List String) : Except Fault (List String) := do
  let names ← sources.mapM Script.extractIdentifiers
  return (names.flatten.filter (!globalNames.contains ·)).eraseDups

theorem dependenciesOf_settles (sources : List String) :
    Converting.Settles (dependenciesOf sources) (dependencyNames sources) :=
  (Converting.Settles.mapM (fun source => .lift (Script.extractIdentifiers source)) sources).bind
    fun _ _ => .pure _

theorem mem_dependencyNames {sources deps : List String} (read : dependencyNames sources = .ok deps)
    {name : String} : name ∈ deps ↔
      name ∉ globalNames ∧ ∃ source ∈ sources, ∃ names, Script.extractIdentifiers source = .ok names ∧
        name ∈ names := by
  obtain ⟨found, each, kept⟩ := ok_of_bind read
  cases kept
  have related := mapM_eq_ok each
  have inside : (∃ names ∈ found, name ∈ names) ↔
      ∃ source ∈ sources, ∃ names, Script.extractIdentifiers source = .ok names ∧ name ∈ names := by
    constructor
    · rintro ⟨names, mem, has⟩
      obtain ⟨source, among, reads⟩ := mem_right_of_forall₂ related.flip mem
      exact ⟨source, among, names, reads, has⟩
    · rintro ⟨source, among, names, reads, has⟩
      obtain ⟨names', mem, reads'⟩ := mem_right_of_forall₂ related among
      obtain rfl := Except.ok.inj (reads.symm.trans reads')
      exact ⟨names, mem, has⟩
  rw [List.mem_eraseDups, List.mem_filter, List.mem_flatten, inside, and_comm]
  simp

end Scope

/-- The draft with one more remembered code. -/
def Draft.remembering (d : Draft) (name code : String) (deps : List String) : Draft :=
  { d with
    taken := d.taken ++ [name]
    memos := d.memos.set code name
    body := { d.body with memos := d.body.memos ++ [{ name, expression := code, deps }] } }

theorem Draft.SameNames.remembering {d d' : Draft} (h : d.SameNames d') (name code : String)
    (deps : List String) : (d.remembering name code deps).SameNames (d'.remembering name code deps) := by
  obtain ⟨imports, uses, rfl⟩ := h
  exact ⟨imports, uses, rfl⟩

namespace Scope

variable {env : TemplateEnv}

theorem remember_outcome (code function : String) (sources : List String) (preferred : Option String)
    (d : Draft) (t : Sink) (new : d.memos.get? code = none) {deps : List String}
    (read : dependencyNames sources = .ok deps) :
    ∃ name d' t', outcome (remember code function sources preferred) d t = (.ok (name, d'), t') ∧
      name ∉ d.taken ∧ (d.remembering name code deps).SameNames d' := by
  have settled := dependenciesOf_settles sources
  rw [read] at settled
  obtain ⟨d₁, t₁, run, same⟩ := settled d t
  have taken : d₁.taken = d.taken := by
    obtain ⟨imports, uses, rfl⟩ := same
    rfl
  let base := if present preferred then preferred.getD "" else function ++ "Value"
  obtain ⟨name, free, made⟩ : ∃ name, name ∉ d₁.taken ∧
      outcome (Converting.unique base) d₁ t₁ = (.ok (name, { d₁ with taken := d₁.taken ++ [name] }), t₁) := by
    refine ⟨_, ?_, rfl⟩
    exact ((Converting.unique_runs base d₁ t₁).2 (_, _) rfl).1
  have whole : outcome (remember code function sources preferred) d t =
      (.ok (name, { d₁.remembering name code deps with imports := d₁.imports.react ["useMemo"] }), t₁) := by
    unfold remember
    change outcome (match d.memos.get? code with | some name => _ | none => _) d t = _
    rw [new]
    dsimp only
    rw [outcome_bind, run]
    dsimp only
    rw [outcome_bind, made]
    rfl
  exact ⟨name, _, t₁, whole, taken ▸ free, (same.remembering name code deps).trans ⟨_, _, rfl⟩⟩

theorem remember_found (code function : String) (sources : List String) (preferred : Option String)
    (d : Draft) (t : Sink) {name : String} (found : d.memos.get? code = some name) :
    outcome (remember code function sources preferred) d t = (.ok (name, d), t) := by
  unfold remember
  change outcome (match d.memos.get? code with | some name => _ | none => _) d t = _
  rw [found]
  rfl

theorem remember_unread (code function : String) (sources : List String) (preferred : Option String)
    (d : Draft) (t : Sink) (new : d.memos.get? code = none) {f : Fault}
    (failed : dependencyNames sources = .error f) :
    ∃ t', outcome (remember code function sources preferred) d t = (.error f, t') := by
  have settled := dependenciesOf_settles sources
  rw [failed] at settled
  obtain ⟨t', run⟩ := settled d t
  refine ⟨t', ?_⟩
  unfold remember
  change outcome (match d.memos.get? code with | some name => _ | none => _) d t = _
  rw [new]
  dsimp only
  rw [outcome_bind, run]

/-! ### Bound values -/

/-- The codes of a bound value: of what its pipes are applied to, and of their arguments. -/
def codesOf (env : TemplateEnv) (s : Scope) (value : BoundValue) :
    Except Fault (String × List (List String)) := do
  let base ← s.codeOf env value.base
  let args ← s.argCodes env value.chain
  return (base, args)

/-- Whether the calls of a bound value are remembered: outside of every region, if there are pipes and
all of them are known and pure. -/
def Remembers (env : TemplateEnv) (s : Scope) (value : BoundValue) : Prop :=
  value.chain ≠ [] ∧ (∀ step ∈ value.chain, (env.pipe step.name).2 = true) ∧ s.depth = 0

instance (env : TemplateEnv) (s : Scope) (value : BoundValue) : Decidable (s.Remembers env value) :=
  inferInstanceAs (Decidable (_ ∧ _ ∧ _))

/-- What a bound value comes to from a draft. -/
inductive Binds (env : TemplateEnv) (s : Scope) (value : BoundValue) (d : Draft) :
    Except Fault (String × Draft) → Prop
  | breaks {f : Fault} (codes : s.codesOf env value = .error f) : Binds env s value d (.error f)
  | code {base : String} {args : List (List String)} {d' : Draft}
      (codes : s.codesOf env value = .ok (base, args)) (plain : ¬ s.Remembers env value)
      (same : d.SameNames d') : Binds env s value d (.ok (chainCode env base (value.chain.zip args), d'))
  | shares {base name : String} {args : List (List String)} {d' : Draft}
      (codes : s.codesOf env value = .ok (base, args)) (remembers : s.Remembers env value)
      (found : d.memos.get? (chainCode env base (value.chain.zip args)) = some name)
      (same : d.SameNames d') : Binds env s value d (.ok (name, d'))
  | makes {base name : String} {args : List (List String)} {deps : List String} {d' : Draft}
      (codes : s.codesOf env value = .ok (base, args)) (remembers : s.Remembers env value)
      (new : d.memos.get? (chainCode env base (value.chain.zip args)) = none)
      (read : dependencyNames (base :: args.flatten) = .ok deps) (free : name ∉ d.taken)
      (same : (d.remembering name (chainCode env base (value.chain.zip args)) deps).SameNames d') :
      Binds env s value d (.ok (name, d'))
  | unread {base : String} {args : List (List String)} {f : Fault}
      (codes : s.codesOf env value = .ok (base, args)) (remembers : s.Remembers env value)
      (new : d.memos.get? (chainCode env base (value.chain.zip args)) = none)
      (failed : dependencyNames (base :: args.flatten) = .error f) : Binds env s value d (.error f)

/-- The pipes of a value come to the codes of its expressions, called around one another. -/
theorem pipes_settle (env : TemplateEnv) (s : Scope) {value : BoundValue}
    (plain : ∀ step ∈ value.chain, step.name ≠ Framework.asyncPipe) (preferred : Option String)
    (p : Option Position) :
    Converting.Settles (do
        let code ← s.expression env value.base
        applyPipes env s preferred p { code, sources := [code] } value.chain)
      ((s.codesOf env value).map fun codes =>
        PipeProgress.after env { code := codes.1, sources := [codes.1] } value.chain codes.2) := by
  have parts : ((s.codesOf env value).map fun codes =>
      PipeProgress.after env { code := codes.1, sources := [codes.1] } value.chain codes.2) = (do
        let code ← s.codeOf env value.base
        (s.argCodes env value.chain).map
          (PipeProgress.after env { code, sources := [code] } value.chain)) := by
    rw [codesOf]
    cases s.codeOf env value.base with
    | error f => rfl
    | ok base => cases s.argCodes env value.chain <;> rfl
  rw [parts]
  exact (expression_settles env s value.base).bind fun code _ => applyPipes_settles env s preferred p _ plain

/-- After its pipes a value is remembered or given as it is. -/
theorem bound_pipe {s : Scope} {name : String} {input : BoundValue} {args : List String}
    {position : Option Position} {base : String} {codes : List (List String)}
    (plain : ∀ step ∈ (BoundValue.pipe name input args position).chain, step.name ≠ Framework.asyncPipe)
    (found : s.codesOf env (.pipe name input args position) = .ok (base, codes))
    (preferred : Option String) (p : Option Position) (d : Draft) (t : Sink) :
    ∃ d' t', d.SameNames d' ∧
      outcome (s.bound env (.pipe name input args position) preferred p) d t =
        outcome (if s.Remembers env (.pipe name input args position) then
            remember (chainCode env base ((BoundValue.pipe name input args position).chain.zip codes))
              (env.pipe name).1 (base :: codes.flatten) preferred
          else return chainCode env base ((BoundValue.pipe name input args position).chain.zip codes))
          d' t' := by
  have settled := pipes_settle env s plain preferred p
  rw [found] at settled
  obtain ⟨d', t', run, same⟩ := settled d t
  refine ⟨d', t', same, ?_⟩
  have last : (PipeProgress.after env { code := base, sources := [base] }
      (BoundValue.pipe name input args position).chain codes).lastFunction = some (env.pipe name).1 := by
    simp [PipeProgress.after, BoundValue.chain]
  have remembers : ((PipeProgress.after env { code := base, sources := [base] }
      (BoundValue.pipe name input args position).chain codes).pure && s.depth == 0) = true ↔
      s.Remembers env (.pipe name input args position) := by
    have some : (BoundValue.pipe name input args position).chain ≠ [] := by simp [BoundValue.chain]
    simp only [PipeProgress.after, Remembers, Bool.true_and, Bool.and_eq_true, List.all_eq_true,
      beq_iff_eq, ne_eq, some, not_false_eq_true, true_and]
  unfold bound
  dsimp only
  rw [← bind_assoc, outcome_bind, run]
  dsimp only
  rw [last]
  dsimp only
  rw [if_congr remembers rfl rfl]
  rfl

/-- Every bound value whose pipes do not wait comes to what `Binds` says, from every draft. -/
theorem bound_binds {s : Scope} {value : BoundValue}
    (plain : ∀ step ∈ value.chain, step.name ≠ Framework.asyncPipe) (preferred : Option String)
    (p : Option Position) (d : Draft) (t : Sink) :
    ∃ r t', outcome (s.bound env value preferred p) d t = (r, t') ∧ Binds env s value d r := by
  cases value with
  | text expression =>
      have settled := expression_settles env s expression
      have codes : s.codesOf env (.text expression) = (s.codeOf env expression).map fun code => (code, []) := by
        rw [codesOf, BoundValue.base]
        cases s.codeOf env expression <;> rfl
      cases code : s.codeOf env expression with
      | error f =>
          rw [code] at settled codes
          obtain ⟨t', run⟩ := settled d t
          exact ⟨_, t', run, .breaks codes⟩
      | ok base =>
          rw [code] at settled codes
          obtain ⟨d', t', run, same⟩ := settled d t
          exact ⟨_, t', run, .code codes (fun remembers => remembers.1 rfl) same⟩
  | pipe name input args position =>
      cases codes : s.codesOf env (.pipe name input args position) with
      | error f =>
          have settled := pipes_settle env s plain preferred p
          rw [codes] at settled
          obtain ⟨t', run⟩ := settled d t
          refine ⟨.error f, t', ?_, .breaks codes⟩
          unfold bound
          dsimp only
          rw [← bind_assoc, outcome_bind, run]
      | ok both =>
          obtain ⟨base, more⟩ := both
          obtain ⟨d', t', same, run⟩ := bound_pipe plain codes preferred p d t
          have memos : d'.memos = d.memos := by
            obtain ⟨imports, uses, rfl⟩ := same
            rfl
          have taken : d'.taken = d.taken := by
            obtain ⟨imports, uses, rfl⟩ := same
            rfl
          rw [run]
          by_cases remembers : s.Remembers env (.pipe name input args position)
          · rw [if_pos remembers]
            cases found : d.memos.get?
                (chainCode env base ((BoundValue.pipe name input args position).chain.zip more)) with
            | some kept =>
                exact ⟨_, _, remember_found _ _ _ _ _ _ (memos ▸ found), .shares codes remembers found same⟩
            | none =>
                cases read : dependencyNames (base :: more.flatten) with
                | error f =>
                    obtain ⟨t'', failed⟩ :=
                      remember_unread _ (env.pipe name).1 _ preferred d' t' (memos ▸ found) read
                    exact ⟨_, t'', failed, .unread codes remembers found read⟩
                | ok deps =>
                    obtain ⟨made, d'', t'', run', free, same'⟩ :=
                      remember_outcome _ (env.pipe name).1 _ preferred d' t' (memos ▸ found) read
                    exact ⟨_, t'', run', .makes codes remembers found read (taken ▸ free)
                      ((same.remembering _ _ _).trans same')⟩
          · rw [if_neg remembers]
            exact ⟨_, t', rfl, .code codes remembers same⟩

end Scope

/-! ### Reading -/

namespace Template

/-- A pipe as it is written: its name and its arguments, with colons between them. -/
def pipeOfSegment (position : Option Position) (segment : String) : PipeStep :=
  let pieces := (Script.splitTopLevel ':' segment).map trim
  { name := pieces.headD "", args := pieces.tail, position }

theorem applyPipes_parts (position : Option Position) : ∀ (segments : List String) (value : BoundValue),
    (applyPipes position value segments).base = value.base ∧
      (applyPipes position value segments).chain = value.chain ++ segments.map (pipeOfSegment position)
  | [], value => ⟨rfl, by simp [applyPipes]⟩
  | segment :: segments, value => by
      obtain ⟨base, chain⟩ := applyPipes_parts position segments
        (.pipe (pipeOfSegment position segment).name value (pipeOfSegment position segment).args position)
      refine ⟨base, chain.trans ?_⟩
      rw [BoundValue.chain, List.append_assoc]
      rfl

/-- What is written between bars outside of quotes and brackets: the base, then the pipes in the order
in which they apply. -/
theorem parseBoundValue_parts (expression : String) (position : Option Position) :
    ∃ base segments, Script.splitTopLevel '|' expression = base :: segments ∧
      expression.toList = base.toList ++ segments.flatMap ('|' :: ·.toList) ∧
      (parseBoundValue expression position).base = trim base ∧
      (parseBoundValue expression position).chain = segments.map (pipeOfSegment position) := by
  obtain ⟨first, parts, split, joined⟩ := Script.splitParts_joined '|' none none 0 expression.toList
  have pieces : Script.splitTopLevel '|' expression = String.ofList first :: parts.map String.ofList := by
    rw [Script.splitTopLevel, split, List.map_cons]
  refine ⟨_, _, pieces, by simpa [List.flatMap_map] using joined, ?_⟩
  rw [parseBoundValue, pieces]
  exact applyPipes_parts position _ (.text _)

end Template

/-! ### Shared memos -/

namespace Draft

variable {index : SymbolIndex} {d d' : Draft} {code name : String}

/-- The remembered codes are those of the memos, one memo for each. -/
structure Recorded (d : Draft) : Prop where
  declared : ∀ code name, d.memos.get? code = some name →
    ∃ m ∈ d.body.memos, m.name = name ∧ m.expression = code
  remembered : ∀ m ∈ d.body.memos, d.memos.get? m.expression = some m.name
  distinct : (d.body.memos.map (·.expression)).Nodup

theorem Recorded.of_empty (memos : d.memos = []) (body : d.body.memos = []) : d.Recorded := by
  constructor
  · intro code name found
    rw [memos] at found
    cases found
  · simp [body]
  · simp [body]

theorem Recorded.remembering (h : d.Recorded) (new : d.memos.get? code = none) (name : String)
    (deps : List String) : (d.remembering name code deps).Recorded := by
  have absent : ∀ m ∈ d.body.memos, m.expression ≠ code := by
    rintro m mem rfl
    rw [h.remembered m mem] at new
    cases new
  constructor
  · intro code' name' found
    rw [Draft.remembering, Table.get?_set] at found
    split at found
    · rename_i same
      cases found
      exact ⟨{ name, expression := code, deps }, List.mem_append_right _ (List.mem_singleton_self _), rfl,
        same.symm⟩
    · obtain ⟨m, mem, rest⟩ := h.declared code' name' found
      exact ⟨m, List.mem_append_left _ mem, rest⟩
  · intro m mem
    rw [Draft.remembering, Table.get?_set]
    rcases List.mem_append.mp mem with old | last
    · rw [if_neg (absent m old)]
      exact h.remembered m old
    · rw [List.mem_singleton.mp last, if_pos rfl]
  · have parts : ((d.remembering name code deps).body.memos.map (·.expression)) =
        d.body.memos.map (·.expression) ++ [code] := by
      simp [Draft.remembering]
    rw [parts, List.nodup_append]
    refine ⟨h.distinct, by simp, ?_⟩
    intro code' old code'' last same
    obtain ⟨m, mem, rfl⟩ := List.mem_map.mp old
    exact absent m mem (same.trans (List.mem_singleton.mp last))

theorem Recorded.congr (h : d.Recorded) (memos : d'.memos = d.memos)
    (body : d'.body.memos = d.body.memos) : d'.Recorded :=
  ⟨by rw [memos, body]; exact h.declared, by rw [memos, body]; exact h.remembered,
    by rw [body]; exact h.distinct⟩

theorem Recorded.sameNames (h : d.Recorded) (same : d.SameNames d') : d'.Recorded := by
  obtain ⟨imports, uses, rfl⟩ := same
  exact h.congr rfl rfl

/-- A step remembers a new code or leaves the memos alone. -/
theorem Step.memos_cases (next : Step index d d') :
    (d'.memos = d.memos ∧ d'.body.memos = d.body.memos) ∨
      ∃ name code deps, d.memos.get? code = none ∧ d' = d.remembering name code deps := by
  cases next with
  | remember name code deps free new => exact .inr ⟨name, code, deps, new, rfl⟩
  | _ => exact .inl ⟨rfl, rfl⟩

theorem Recorded.step (h : d.Recorded) (next : Step index d d') : d'.Recorded := by
  obtain ⟨memos, body⟩ | ⟨name, code, deps, new, rfl⟩ := next.memos_cases
  · exact h.congr memos body
  · exact h.remembering new name deps

/-- Converting keeps the record. -/
theorem Recorded.ofSteps (h : d.Recorded) (steps : ReflTransGen (Step index) d d') : d'.Recorded := by
  induction steps with
  | refl => exact h
  | tail _ next ih => exact ih.step next

/-- What is remembered stays so, with its memo. -/
theorem Step.keeps (next : Step index d d') (found : d.memos.get? code = some name) :
    d'.memos.get? code = some name ∧ d.body.memos ⊆ d'.body.memos := by
  obtain ⟨memos, body⟩ | ⟨name', code', deps, new, rfl⟩ := next.memos_cases
  · rw [memos, body]
    exact ⟨found, List.Subset.refl _⟩
  · have other : code ≠ code' := by
      rintro rfl
      rw [found] at new
      cases new
    refine ⟨?_, List.subset_append_left _ _⟩
    rw [Draft.remembering, Table.get?_set, if_neg other]
    exact found

theorem keeps_of_steps (steps : ReflTransGen (Step index) d d') (found : d.memos.get? code = some name) :
    d'.memos.get? code = some name ∧ d.body.memos ⊆ d'.body.memos := by
  induction steps with
  | refl => exact ⟨found, List.Subset.refl _⟩
  | tail _ next ih =>
      obtain ⟨kept, more⟩ := next.keeps ih.1
      exact ⟨kept, List.Subset.trans ih.2 more⟩

/-- A recorded code has one memo. -/
theorem Recorded.unique (h : d.Recorded) {m m' : MemoDecl} (mem : m ∈ d.body.memos)
    (mem' : m' ∈ d.body.memos) (same : m.expression = m'.expression) : m = m' :=
  List.inj_on_of_nodup_map h.distinct mem mem' same

end Draft

namespace Scope

variable {env : TemplateEnv} {s : Scope} {value : BoundValue} {d d' : Draft} {base name : String}
  {args : List (List String)}

/-- Every bound value that comes to the code is given the name, and nothing new is remembered. -/
def SharesCode (env : TemplateEnv) (code name : String) (d : Draft) : Prop :=
  ∀ (s : Scope) (value : BoundValue) (preferred : Option String) (p : Option Position) (t : Sink)
    (base : String) (args : List (List String)),
    (∀ step ∈ value.chain, step.name ≠ Framework.asyncPipe) → s.codesOf env value = .ok (base, args) →
      s.Remembers env value → chainCode env base (value.chain.zip args) = code →
        ∃ d' t', outcome (s.bound env value preferred p) d t = (.ok (name, d'), t') ∧ d.SameNames d'

theorem sharesCode_of_found {code : String} (found : d.memos.get? code = some name) :
    SharesCode env code name d := by
  rintro s value preferred p t base args plain codes remembers rfl
  obtain ⟨r, t', run, binds⟩ := bound_binds plain preferred p d t
  cases binds with
  | breaks failed =>
      rw [codes] at failed
      cases failed
  | code _ never => exact absurd remembers never
  | shares codes' _ found' same =>
      cases codes.symm.trans codes'
      cases found.symm.trans found'
      exact ⟨_, t', run, same⟩
  | makes codes' _ new =>
      cases codes.symm.trans codes'
      rw [found] at new
      cases new
  | unread codes' _ new =>
      cases codes.symm.trans codes'
      rw [found] at new
      cases new

/-- What stands for a remembered value: the only memo of its code, from now on and for everyone who comes
to the code.  If the value has made it, it depends on the names in the value's own codes. -/
structure Remembered (env : TemplateEnv) (d : Draft) (code : String) (sources : List String)
    (name : String) (d' : Draft) (memo : MemoDecl) : Prop where
  mem : memo ∈ d'.body.memos
  named : memo.name = name
  expression : memo.expression = code
  only : ∀ m ∈ d'.body.memos, m.expression = code → m = memo
  deps : d.memos.get? code = none → ∀ n, n ∈ memo.deps ↔ n ∉ globalNames ∧
    ∃ source ∈ sources, ∃ names, Script.extractIdentifiers source = .ok names ∧ n ∈ names
  old : d.memos.get? code ≠ none → d'.body.memos = d.body.memos
  later : ∀ d₂, ReflTransGen (Draft.Step env.index) d' d₂ →
    memo ∈ d₂.body.memos ∧ (∀ m ∈ d₂.body.memos, m.expression = code → m = memo) ∧
      SharesCode env code name d₂

theorem Binds.recorded {r : Except Fault (String × Draft)} (recorded : d.Recorded)
    (binds : Binds env s value d r) (given : r = .ok (name, d')) : d'.Recorded := by
  cases binds with
  | breaks => cases given
  | unread => cases given
  | code _ _ same | shares _ _ _ same =>
      cases given
      exact recorded.sameNames same
  | makes _ _ new _ _ same =>
      cases given
      exact (recorded.remembering new _ _).sameNames same

theorem Binds.remembered (recorded : d.Recorded) (binds : Binds env s value d (.ok (name, d')))
    (codes : s.codesOf env value = .ok (base, args)) (remembers : s.Remembers env value) :
    ∃ memo, Remembered env d (chainCode env base (value.chain.zip args)) (base :: args.flatten)
      name d' memo := by
  have recorded' := binds.recorded recorded rfl
  -- a memo that is recorded under the name is the one, now and later
  have stands (memo : MemoDecl) (mem : memo ∈ d'.body.memos)
      (expression : memo.expression = chainCode env base (value.chain.zip args))
      (found : d'.memos.get? (chainCode env base (value.chain.zip args)) = some name) (d₂ : Draft)
      (steps : ReflTransGen (Draft.Step env.index) d' d₂) :
      memo ∈ d₂.body.memos ∧
        (∀ m ∈ d₂.body.memos, m.expression = chainCode env base (value.chain.zip args) → m = memo) ∧
        SharesCode env (chainCode env base (value.chain.zip args)) name d₂ := by
    obtain ⟨kept, more⟩ := Draft.keeps_of_steps steps found
    have unique (m : MemoDecl) (mem' : m ∈ d₂.body.memos)
        (same : m.expression = chainCode env base (value.chain.zip args)) : m = memo :=
      (recorded'.ofSteps steps).unique mem' (more mem) (same.trans expression.symm)
    exact ⟨more mem, unique, sharesCode_of_found kept⟩
  cases binds with
  | code _ plain => exact absurd remembers plain
  | shares codes' _ found same =>
      cases codes.symm.trans codes'
      obtain ⟨imports, uses, rfl⟩ := same
      obtain ⟨memo, mem, named, expression⟩ := recorded.declared _ _ found
      have later := stands memo mem expression found
      refine ⟨memo, mem, named, expression, (later _ .refl).2.1, fun new => ?_, fun _ => rfl, later⟩
      rw [found] at new
      cases new
  | @makes _ _ _ deps _ codes' _ new read free same =>
      cases codes.symm.trans codes'
      obtain ⟨imports, uses, rfl⟩ := same
      let memo : MemoDecl := { name, expression := chainCode env base (value.chain.zip args), deps }
      have mem : memo ∈ d.body.memos ++ [memo] := List.mem_append_right _ (List.mem_singleton_self memo)
      have found : (d.memos.set memo.expression name).get? memo.expression = some name := by
        rw [Table.get?_set, if_pos rfl]
      have later := stands memo mem rfl found
      exact ⟨memo, mem, rfl, rfl, (later _ .refl).2.1, fun _ n => mem_dependencyNames read,
        fun old => absurd new old, later⟩

/-- A bound text whose pipes do not wait, once a template is converted that began without memos: its pipes
are called around one another, in the order in which they are written; the calls are remembered just
outside of every region and if all pipes are known and pure, and what is remembered stands in one memo,
whoever else comes to its code. -/
theorem bound_chain (env : TemplateEnv) (s : Scope) (expression : String) (position : Option Position)
    (preferred : Option String) (p : Option Position) (start d : Draft) (t : Sink)
    (fresh : start.memos = [] ∧ start.body.memos = [])
    (reached : ReflTransGen (Draft.Step env.index) start d)
    (plain : ∀ step ∈ (parseBoundValue expression position).chain, step.name ≠ Framework.asyncPipe) :
    (∃ base segments, Script.splitTopLevel '|' expression = base :: segments ∧
      expression.toList = base.toList ++ segments.flatMap ('|' :: ·.toList) ∧
      (parseBoundValue expression position).base = trim base ∧
      (parseBoundValue expression position).chain = segments.map (pipeOfSegment position)) ∧
    ∃ r t', outcome (s.bound env (parseBoundValue expression position) preferred p) d t = (r, t') ∧
      Binds env s (parseBoundValue expression position) d r ∧
      ∀ name d' base args, r = .ok (name, d') →
        s.codesOf env (parseBoundValue expression position) = .ok (base, args) →
        s.Remembers env (parseBoundValue expression position) →
          ∃ memo, Remembered env d
            (chainCode env base ((parseBoundValue expression position).chain.zip args))
            (base :: args.flatten) name d' memo := by
  have recorded : d.Recorded :=
    (Draft.Recorded.of_empty fresh.1 fresh.2).ofSteps reached
  refine ⟨parseBoundValue_parts expression position, ?_⟩
  obtain ⟨r, t', run, binds⟩ := bound_binds plain preferred p d t
  refine ⟨r, t', run, binds, ?_⟩
  rintro name d' base args rfl codes remembers
  exact binds.remembered recorded codes remembers

/-- A template of a class with a value and a method that is named like a known pipe. -/
def jsonEnv : TemplateEnv where
  index := {}
  names := { members := ["x", "json"] }

theorem bound_chain_jsonUppercase :
    (({} : Draft).memos = [] ∧ ({} : Draft).body.memos = []) ∧
      (∀ step ∈ (parseBoundValue "x | json | uppercase" none).chain, step.name ≠ Framework.asyncPipe) ∧
      ∃ name d' t', outcome (bound jsonEnv {} (parseBoundValue "x | json | uppercase" none) none none) {}
          { unit := "" } = (.ok (name, d'), t') ∧
        ∃ memo, Remembered jsonEnv {} "uppercase(json(x))" ["x"] name d' memo := by
  have plain : ∀ step ∈ (parseBoundValue "x | json | uppercase" none).chain,
      step.name ≠ Framework.asyncPipe := by
    decide +kernel
  have codes : codesOf jsonEnv {} (parseBoundValue "x | json | uppercase" none) = .ok ("x", [[], []]) := by
    decide +kernel
  have remembers : Remembers jsonEnv {} (parseBoundValue "x | json | uppercase" none) := by
    decide +kernel
  have code : chainCode jsonEnv "x" ((parseBoundValue "x | json | uppercase" none).chain.zip [[], []]) =
      "uppercase(json(x))" := by
    decide +kernel
  obtain ⟨-, r, t', run, binds, stands⟩ :=
    bound_chain jsonEnv {} "x | json | uppercase" none none none {} {}
      { unit := "" } ⟨rfl, rfl⟩ .refl plain
  have made : Converting.value? (bound jsonEnv {} (parseBoundValue "x | json | uppercase" none) none none) ≠
      none := by
    decide +kernel
  cases r with
  | error f =>
      rw [Converting.value?, run] at made
      exact absurd rfl made
  | ok both =>
      have stands := stands both.1 both.2 _ _ rfl codes remembers
      rw [code] at stands
      exact ⟨⟨rfl, rfl⟩, plain, _, _, t', run, stands⟩

/-- What is written with a call comes to the code of the pipes, and is given their value: the function that
it calls is a name of its code on which the memo does not depend. -/
theorem dependency_lost_shared :
    (do
      let first ← bound jsonEnv {} (parseBoundValue "x | json | uppercase" none) none none
      let second ← bound jsonEnv {} (parseBoundValue "json(x) | uppercase" none) none none
      return (first, second, (← get).body.memos)).value? =
        some ("uppercaseValue", "uppercaseValue",
          [{ name := "uppercaseValue", expression := "uppercase(json(x))", deps := ["x"] }]) ∧
      codesOf jsonEnv {} (parseBoundValue "json(x) | uppercase" none) = .ok ("json(x)", [[]]) ∧
      Remembers jsonEnv {} (parseBoundValue "json(x) | uppercase" none) ∧
      Script.extractIdentifiers "json(x)" = .ok ["json", "x"] ∧ "json" ∉ globalNames := by
  decide +kernel

end Scope

end ReactMigration
