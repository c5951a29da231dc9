import ReactMigration.Model.Basic
import ReactMigration.Script.Names

/-!
Recasting method bodies and template expressions into the code of a function.

A class addresses everything through `this`.  Calls of injected framework classes become calls of
their counterparts, events become callbacks, writes of state become setter calls, refs are read
through `current`, and what is left of `this.` is dropped.  Each pass is a function of the text; the
hooks that the result relies on and the warnings are kept in `RecastNotes`.  Callbacks, setters,
subjects and refs are written by replacements that may have escapes; `refusal?` finds the first one
that cannot be read.
-/

namespace ReactMigration

open ReactMigration.Text

/-- The order in which a run goes through a set of names.  Nothing fixes it, so that another run may go
through the same names in another one. -/
structure NameOrder where
  list : List String → List String
  perm (names : List String) : (list names).Perm names.eraseDups

/-- The order in which the names are written. -/
def NameOrder.written : NameOrder where
  list := List.eraseDups
  perm names := .refl names.eraseDups

theorem NameOrder.mem_list (order : NameOrder) {name : String} {names : List String} :
    name ∈ order.list names ↔ name ∈ names :=
  (order.perm names).mem_iff.trans List.mem_eraseDups

/-- The names visible in one generated function, by role. -/
structure RecastContext where
  props : List String := []
  /-- The callback of each output. -/
  outputs : Table String := []
  /-- The setter of each state variable. -/
  state : Table String := []
  subjects : List String := []
  refs : List String := []
  /-- The ref that stands for each injected host element. -/
  elementRefs : Table String := []
  dependencies : Table Injected := []
  /-- Everything addressed through `this`. -/
  members : List String := []
  deriving Inhabited

/-- What recasting leaves to say: the hooks the code relies on, and warnings. -/
structure RecastNotes where
  uses : List String := []
  warnings : List String := []
  deriving Repr, DecidableEq, Inhabited

/-- Recasting with notes. -/
abbrev Recasting := StateM RecastNotes

namespace Recasting

/-- Notes a warning. -/
def warn (message : String) : Recasting Unit :=
  modify fun n => { n with warnings := n.warnings ++ [message] }

/-- Notes that the code relies on a hook. -/
def uses (hook : String) : Recasting Unit :=
  modify fun n => if n.uses.contains hook then n else { n with uses := n.uses ++ [hook] }

end Recasting

namespace Recast

/-! ### Calls -/

/-- What stands between an opening bracket and its closing one, and the text after it, given the
text after the opening bracket. -/
def enclosed? (opener : Char) (rest : List Char) : Option (List Char × List Char) :=
  (Script.findClosing? (opener :: rest) 0).map fun j => (rest.take (j - 1), rest.drop j)

/-- The cursor after a replacement has been written at the place where `c` stands. -/
def writeAt (c : Cursor) (replacement after : List Char) : Cursor :=
  ⟨replacement.reverse ++ c.before, after, c.offset + replacement.length⟩

/-- The whole text around a cursor. -/
def wholeText (c : Cursor) : String :=
  String.ofList (c.before.reverse ++ c.after)

/-- The place where a match starts, in the text of the given cursor. -/
def startOf (c : Cursor) (m : Match) : Cursor :=
  c.advance (m.start - c.offset)

/-- Replaces calls by their arguments, innermost calls included, within a number of steps. -/
def unwrapWithin (p : Pattern) : Nat → Cursor → Cursor
  | 0, c => c
  | n + 1, c =>
      match p.searchAt? c with
      | none => c
      | some m =>
          match enclosed? '(' m.rest.after with
          | none => c
          | some (inner, after) =>
              let here := startOf c m
              unwrapWithin p n ⟨here.before, inner ++ after, here.offset⟩

/-- Replaces the calls of a function by their arguments. -/
def unwrapCall (text name : String) : String :=
  let p := Pattern.notAfter Pattern.isPath ++ .text (name ++ "(")
  let cs := text.toList
  wholeText (unwrapWithin p (cs.length + 1) (.start cs))

/-- A member of the instance. -/
def member (name : String) : Pattern :=
  .boundary ++ .text ("this." ++ name)

/-- The trimmed arguments of a call. -/
def argumentsOf (inner : List Char) : List String :=
  let text := String.ofList inner
  if isBlankText text then [] else (Script.splitTopLevel ',' text).map trim

/-- Replaces method calls on a member where the handler gives a text, within a number of steps. -/
def memberCallsWithin (p : Pattern) (handler : String → List String → Recasting (Option String)) :
    Nat → Cursor → Recasting Cursor
  | 0, c => pure c
  | n + 1, c =>
      match p.searchAt? c with
      | none => pure c
      | some m =>
          match enclosed? '(' m.rest.after with
          | none => pure c
          | some (inner, after) => do
              match ← handler (m.group 1) (argumentsOf inner) with
              | none => memberCallsWithin p handler n m.rest
              | some replacement =>
                  memberCallsWithin p handler n (writeAt (startOf c m) replacement.toList after)

/-- Replaces `this.name.method(args)` where the handler gives a text. -/
def replaceMemberCalls (name : String)
    (handler : String → List String → Recasting (Option String)) (text : String) :
    Recasting String := do
  let p := member name ++ .text "." ++ .group 1 .name ++ .text "("
  let cs := text.toList
  return wholeText (← memberCallsWithin p handler (cs.length + 1) (.start cs))

/-- Replaces calls by a text around their argument, within a number of steps. -/
def getCallsWithin (p : Pattern) (around : String → String) : Nat → Cursor → Cursor
  | 0, c => c
  | n + 1, c =>
      match p.searchAt? c with
      | none => c
      | some m =>
          match enclosed? '(' m.rest.after with
          | none => c
          | some (inner, after) =>
              let replacement := around (trim (String.ofList inner))
              getCallsWithin p around n (writeAt (startOf c m) replacement.toList after)

/-- Replaces calls, given by what stands up to their bracket, by a text around their argument. -/
def replaceGetCalls (head : Pattern) (around : String → String) (text : String) : String :=
  let cs := text.toList
  wholeText (getCallsWithin (head ++ .text "(") around (cs.length + 1) (.start cs))

/-! ### Refs -/

/-- An equals sign that is not part of a comparison. -/
def loneEquals : Pattern :=
  .text "=" ++ .ahead false (.text "=")

/-- An operator that assigns. -/
def assignmentSign : Pattern :=
  (.oneOf ["??=", "||=", "&&="] <|>
    (.opt (.one (fun c => "-+*/%".toList.contains c)) ++ .text "=")) ++ .ahead false (.text "=")

/-- One step of an access path: a member or an index. -/
def accessStep : Pattern :=
  (.text "." ++ .name) <|> (.text "[" ++ .many (· != ']') 1 true ++ .text "]")

/-- A path that is assigned to. -/
def assignmentTarget : Pattern :=
  .name ++ .star accessStep ++ .blanks ++ assignmentSign

/-- Replaces accesses through a ref; the value is asserted where the path is assigned to and may be
missing elsewhere. -/
def dereference (head : Pattern) (ref text : String) : String :=
  head.replaceWith (fun m =>
    if (assignmentTarget.matchAt? m.rest).isSome then ref ++ ".current!." else ref ++ ".current?.") text

/-! ### Framework classes -/

/-- The router: navigation and the current address. -/
def recastRouter (text name : String) : Recasting String := do
  let navigate (method : String) (args : List String) : Recasting (Option String) := do
    match method, args with
    | "navigate", target :: _ =>
        Recasting.uses "navigate"
        let joined := if target.startsWith "[" then target ++ ".join('/')" else target
        return some s!"navigate({joined})"
    | "navigateByUrl", target :: _ =>
        Recasting.uses "navigate"
        return some s!"navigate({target})"
    | _, _ =>
        Recasting.warn s!"Router.{method}() has no react-router counterpart"
        return none
  let text ← replaceMemberCalls name navigate text
  let url := member name ++ .text ".url" ++ .boundary
  if url.occurs text then
    Recasting.uses "location"
    return url.replace "location.pathname" text
  else return text

/-- The current route: parameters of the path and of the query. -/
def recastRoute (text name : String) : Recasting String := do
  let route := member name ++ .text ".snapshot"
  if (route ++ .text "." ++ .oneOf ["paramMap", "params"] ++ .boundary).occurs text then
    Recasting.uses "params"
  let text := replaceGetCalls (route ++ .text ".paramMap.get") (fun a => s!"params[{a}]") text
  let text := (route ++ .text ".params" ++ .boundary).replace "params" text
  if (route ++ .text "." ++ .oneOf ["queryParamMap", "queryParams"] ++ .boundary).occurs text then
    Recasting.uses "searchParams"
  let text := replaceGetCalls (route ++ .text ".queryParamMap.get")
    (fun a => s!"searchParams.get({a})") text
  let text := (route ++ .text ".queryParams[" ++ .group 1 (.many (· != ']') 1 true) ++
    .text "]").replaceWith (fun m => "searchParams.get(" ++ m.group 1 ++ ")") text
  let text := (route ++ .text ".queryParams." ++ .group 1 .name).replaceWith
    (fun m => "searchParams.get('" ++ m.group 1 ++ "')") text
  let stream := member name ++ .text "." ++
    .oneOf ["paramMap", "params", "queryParamMap", "queryParams"] ++ .boundary
  if stream.occurs text then
    Recasting.warn "Observable route parameters are read once through useParams()"
    Recasting.uses "params"
    return (member name ++ .text "." ++ .oneOf ["paramMap", "params"] ++ .boundary).replace
      "params" text
  else return text

/-- The ref that stands for a host element. -/
def hostRef (ctx : RecastContext) (name : String) : String :=
  (ctx.elementRefs.get? name).getD name

/-- The host element. -/
def recastElement (ctx : RecastContext) (text name : String) : String :=
  let target := hostRef ctx name
  let native := member name ++ .text ".nativeElement"
  (native ++ .boundary).substitute (target ++ ".current") (dereference (native ++ .text ".") target text)

/-- The code that stands for a call of the renderer. -/
def rendererCall? (method a b c : String) : Option String :=
  match method with
  | "setStyle" => some s!"{a}.style.setProperty({b}, {c})"
  | "removeStyle" => some s!"{a}.style.removeProperty({b})"
  | "addClass" => some s!"{a}.classList.add({b})"
  | "removeClass" => some s!"{a}.classList.remove({b})"
  | "setAttribute" => some s!"{a}.setAttribute({b}, {c})"
  | "removeAttribute" => some s!"{a}.removeAttribute({b})"
  | "setProperty" => some s!"{a}[{b}] = {c}"
  | "appendChild" => some s!"{a}.appendChild({b})"
  | "removeChild" => some s!"{a}.removeChild({b})"
  | "insertBefore" => some s!"{a}.insertBefore({b}, {c})"
  | "createElement" => some s!"document.createElement({a})"
  | "createText" => some s!"document.createTextNode({a})"
  | "createComment" => some s!"document.createComment({a})"
  | "setValue" => some s!"{a}.nodeValue = {b}"
  | "listen" =>
      let target :=
        match a with
        | "'window'" => "window"
        | "'document'" => "document"
        | "'body'" => "document.body"
        | other => other
      some ("((target, type, listener) => \x7b target.addEventListener(type, listener); " ++
        "return () => target.removeEventListener(type, listener); \x7d)" ++
        s!"({target}, {b}, {c})")
  | _ => none

/-- The renderer. -/
def recastRenderer (text name : String) : Recasting String :=
  replaceMemberCalls name (fun method args => do
    match rendererCall? method (args.getD 0 "") (args.getD 1 "") (args.getD 2 "") with
    | some code => return some code
    | none =>
        Recasting.warn s!"Renderer2.{method}() is not converted"
        return none) text

/-- Calls that ask for a new rendering, which happens by itself. -/
def recastChangeDetector (text name : String) : String :=
  let calls := ["detectChanges", "markForCheck", "detach", "reattach", "checkNoChanges"]
  (.many (fun c => c == ' ' || c == '\t') 0 true ++ member name ++ .text "." ++ .oneOf calls ++
    .text "()" ++ .blanks ++ .opt (.text ";") : Pattern).replace "" text

/-- Recasts the calls of one injected framework class. -/
def recastDependency (ctx : RecastContext) (text : String) (dep : String × Injected) :
    Recasting String :=
  let (name, injected) := dep
  if injected.kind != .builtin then return text
  else
    match toLower injected.typeName with
    | "router" => recastRouter text name
    | "activatedroute" => recastRoute text name
    | "elementref" => return recastElement ctx text name
    | "renderer2" => recastRenderer text name
    | "changedetectorref" => return recastChangeDetector text name
    | _ => return text

/-! ### Members -/

/-- Emitting an event becomes calling its callback. -/
def recastOutputs (outputs : Table String) (text : String) : String :=
  outputs.foldl (fun text (output, callback) =>
    (member output ++ .text ".emit(").substitute (callback ++ "(") text) text

/-- Reading and writing a subject becomes reading and writing its state variable. -/
def recastSubject (state : Table String) (text name : String) : Recasting String := do
  let text :=
    match state.get? name with
    | some setter =>
        if setter == "" then text else (member name ++ .text ".next(").substitute (setter ++ "(") text
    | none => text
  let text := (member name ++ .text "." ++ .oneOf ["getValue", "asObservable"] ++ .text "()").substitute
    ("this." ++ name) text
  let text := (member name ++ .text ".value" ++ .boundary).substitute ("this." ++ name) text
  if (member name ++ .text "." ++ .oneOf ["pipe", "subscribe"] ++ .text "(").occurs text then
    Recasting.warn s!"Stream operators on '{name}' are not converted"
  return text

/-! ### Writes of state -/

/-- The keys and indices of an access path. -/
def accessKeys (path : String) : List (String ⊕ String) :=
  let key : Pattern := (.text "." ++ .group 1 .name) <|>
    (.text "[" ++ .group 2 (.many (· != ']') 1 true) ++ .text "]")
  (key.findAll path).map fun m =>
    match m.group? 1 with
    | some k => .inl k
    | none => .inr (m.group 2)

/-- The record `base` with the value at the path of keys, all else taken over. -/
def spreadInto (base : String) : List String → String → String
  | [], value => value
  | key :: keys, value =>
      "\x7b ..." ++ base ++ ", " ++ key ++ ": " ++ spreadInto (base ++ "." ++ key) keys value ++ " \x7d"

/-- The value of a variable after a write at a path: a chain of spreads for keys, a changed copy when
the path has an index. -/
def spreadUpdate (name path value : String) : String :=
  let keys := accessKeys path
  if keys.any (·.isRight) then
    "(() => \x7b const next = structuredClone(" ++ name ++ "); next" ++ path ++ " = " ++ value ++
      "; return next; \x7d)()"
  else spreadInto name (keys.filterMap (·.getLeft?)) value

/-- Whether an expression needs no brackets as an operand: a path or a plain string. -/
def isSimple (expression : String) : Bool :=
  let quoted (q : Char) : Pattern :=
    .one (· == q) ++ .many (· != q) 0 true ++ .one (· == q)
  (.many Pattern.isPath 1 true <|> quoted '\'' <|> quoted '"' : Pattern).covers (trim expression)

/-- Methods that change an array in place and are done on a copy. -/
def arrayMutators : List String :=
  ["pop", "shift", "splice", "sort", "reverse", "fill", "copyWithin"]

/-- The new value of an array after a call that changes it in place. -/
def arrayUpdate? (name method args : String) : Option String :=
  if method == "push" then some s!"[...{name}, {args}]"
  else if method == "unshift" then some s!"[{args}, ...{name}]"
  else if arrayMutators.contains method then
    some ("(prev) => \x7b const next = [...prev]; next." ++ method ++ "(" ++ args ++
      "); return next; \x7d")
  else none

/-- A possible write: an optional increment or decrement in front of a member. -/
def memberAccess : Pattern :=
  .opt (.group 1 (.oneOf ["++", "--"])) ++ .blanks ++ .boundary ++ .text "this." ++ .group 2 .name

/-- A step by one, after the member. -/
def trailingStep : Pattern :=
  .blanks ++ .group 1 (.oneOf ["++", "--"])

/-- A method call on the member. -/
def methodCall : Pattern :=
  .text "." ++ .group 1 .name ++ .text "("

/-- An assignment to the member or to a part of it. -/
def assignment : Pattern :=
  .group 1 (.star accessStep) ++ .blanks ++ .group 2 assignmentSign

/-- The sign of a step. -/
def stepSign (step : String) : String :=
  if step == "++" then "+" else "-"

/-- What a write is replaced by, and the text after it. -/
abbrev Update := List Char × List Char

/-- The update of a step by one. -/
def stepUpdate (setter name step : String) (after : List Char) : Update :=
  (s!"{setter}({name} {stepSign step} 1)".toList, after)

/-- The update of an assignment, the cursor standing after the sign. -/
def assignUpdate (setter name path sign : String) (c : Cursor) : Update :=
  let c := c.advance (c.after.takeWhile isIndent).length
  let stop := Script.expressionEndFrom none 0 c.before c.offset c.after
  let value := trim (String.ofList (c.after.take (stop - c.offset)))
  let operator := (sign.dropEnd 1).toString
  let operand := if isSimple value then value else s!"({value})"
  let value := if sign == "=" then value else s!"{name}{path} {operator} {operand}"
  let result := if path == "" then value else spreadUpdate name path value
  (s!"{setter}({result})".toList, c.after.drop (stop - c.offset))

/-- The update at a member that is not stepped from the front, the cursor standing after it. -/
def memberUpdate (setter : Option String) (name : String) (c : Cursor) :
    Recasting (Option Update) := do
  match trailingStep.matchAt? c with
  | some m =>
      match setter with
      | some setter => return some (stepUpdate setter name (m.group 1) m.rest.after)
      | none =>
          Recasting.warn s!"Input '{name}' is modified locally; the prop is read-only"
          return none
  | none =>
      let call := setter.bind fun setter => (methodCall.matchAt? c).bind fun m =>
        if m.group 1 == "push" || m.group 1 == "unshift" || arrayMutators.contains (m.group 1) then
          some (setter, m)
        else none
      match call with
      | some (setter, m) =>
          return do
            let (inner, after) ← enclosed? '(' m.rest.after
            let update ← arrayUpdate? name (m.group 1) (trim (String.ofList inner))
            some (s!"{setter}({update})".toList, after)
      | none =>
          match assignment.matchAt? c with
          | none => return none
          | some m =>
              match setter with
              | some setter => return some (assignUpdate setter name (m.group 1) (m.group 2) m.rest)
              | none =>
                  Recasting.warn s!"Input '{name}' is assigned locally; the prop is read-only"
                  return none

/-- The characters of a match before the member itself, which stay. -/
def keptBefore (m : Match) : List Char :=
  m.chars.take (m.chars.length - ("this." ++ m.group 2).length)

/-- Replaces writes of state by setter calls, within a number of steps. -/
def stateWritesWithin (state : Table String) (props : List String) :
    Nat → Cursor → Recasting Cursor
  | 0, c => pure c
  | n + 1, c =>
      match memberAccess.searchAt? c with
      | none => pure c
      | some m =>
          let name := m.group 2
          let here := startOf c m
          if !(state.has name || props.contains name) then stateWritesWithin state props n m.rest
          else
            match m.group? 1 with
            | some step =>
                match state.get? name with
                | none => stateWritesWithin state props n m.rest
                | some setter =>
                    let (replacement, after) := stepUpdate setter name step m.rest.after
                    stateWritesWithin state props n (writeAt here replacement after)
            | none => do
                match ← memberUpdate (state.get? name) name m.rest with
                | none => stateWritesWithin state props n m.rest
                | some (replacement, after) =>
                    stateWritesWithin state props n (writeAt here (keptBefore m ++ replacement) after)

/-- Replaces writes of state by setter calls. -/
def recastState (state : Table String) (props : List String) (text : String) :
    Recasting String := do
  if state.isEmpty && props.isEmpty then return text
  let cs := text.toList
  return wholeText (← stateWritesWithin state props (cs.length + 1) (.start cs))

/-- Reads and writes of a ref go through `current`. -/
def recastRef (text name : String) : String :=
  let m := member name
  let current := name ++ ".current"
  let text := dereference (m ++ .text ".nativeElement.") name text
  let text := (m ++ .text ".nativeElement" ++ .boundary).substitute current text
  let text := (m ++ .ahead true (.blanks ++ loneEquals)).substitute current text
  let text := dereference (m ++ .text ".") name text
  (m ++ .boundary).substitute current text

/-! ### Whole bodies -/

/-- Lines without trailing white space, of blank lines in a row only the first. -/
def dropBlankRuns : Bool → List String → List String
  | _, [] => []
  | afterBlank, line :: lines =>
      if isBlankText line then
        if afterBlank then dropBlankRuns true lines else trimEnd line :: dropBlankRuns true lines
      else trimEnd line :: dropBlankRuns false lines

/-- Recasts a body. -/
def body (ctx : RecastContext) (source : String) : Recasting String := do
  if source == "" then return ""
  let text := ["firstValueFrom", "lastValueFrom", "$any"].foldl unwrapCall source
  let text := replaceAll ".toPromise()" "" text
  let text ← ctx.dependencies.foldlM (recastDependency ctx) text
  let text := recastOutputs ctx.outputs text
  let text ← ctx.subjects.foldlM (recastSubject ctx.state) text
  let text ← recastState ctx.state ctx.props text
  let text := ctx.refs.foldl recastRef text
  let text := replaceAll ".bind(this)" "" text
  let text := (.boundary ++ .text "this." ++ .ahead true (.one Pattern.isName) : Pattern).replace ""
    text
  return trimNewlines (unlines (dropBlankRuns false (splitAt '\n' text)))

/-- The replacements that recasting reads, in order, each with the context of the passes before it. -/
def replacements (ctx : RecastContext) : List (RecastContext × String) :=
  let services := { ctx with props := [], outputs := [], subjects := [], refs := [] }
  let hosts := ctx.dependencies.zipIdx.filterMap fun ((name, injected), i) =>
    if injected.kind == .builtin && toLower injected.typeName == "elementref" then
      some ({ services with dependencies := ctx.dependencies.take i }, hostRef ctx name ++ ".current")
    else none
  let callbacks := ctx.outputs.map fun (_, callback) => (services, callback ++ "(")
  let subjects := ctx.subjects.zipIdx.flatMap fun (name, i) =>
    let before := { ctx with props := [], subjects := ctx.subjects.take i, refs := [] }
    let setter := (ctx.state.get? name).filter (· ≠ "")
    setter.toList.map (fun s => (before, s ++ "(")) ++ [(before, "this." ++ name)]
  let refs := ctx.refs.map fun name => ({ ctx with refs := [] }, name ++ ".current")
  hosts ++ callbacks ++ subjects ++ refs

/-- The first replacement that cannot be read, with the context of the passes before it.  It ends the
recasting of a body, whatever is found there, unless the body is empty. -/
def refusal? (ctx : RecastContext) (source : String) : Option (RecastContext × Fault) :=
  if source == "" then none
  else (replacements ctx).findSome? fun (before, replacement) =>
    match Replacement.read replacement with
    | .ok _ => none
    | .error refusal => some (before, .unreadReplacement refusal)

/-- The names of a template expression with what they stand for: locals by their replacements, and
members through `this`. -/
def expressionNames (ctx : RecastContext) (locals : Table String) : Table String :=
  let locals := locals.setNew "$event" "event"
  (ctx.members.filter (!locals.has ·)).map (fun m => (m, "this." ++ m)) ++
    locals.filter fun (k, v) => k != v

/-- A template expression as a body. -/
def expressionBody (ctx : RecastContext) (locals : Table String) (source : String) : Except Fault String :=
  Script.renameIdentifiers (trim source) (expressionNames ctx locals)

/-- Recasts a template expression. -/
def expression (ctx : RecastContext) (locals : Table String) (source : String) :
    Except Fault (Recasting String) := do
  return body ctx (← expressionBody ctx locals source)

end Recast

end ReactMigration
