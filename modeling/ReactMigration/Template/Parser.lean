import ReactMigration.Report.Finding
import ReactMigration.Template.Value

/-!
Reading template markup into an ordered tree.

The reader walks the text with a `Cursor`.  Binding syntax is classified while reading; a two-way
binding stays one attribute.  The loops are bounded by the number of characters, since every round
takes at least one.
-/

namespace ReactMigration.Template

open ReactMigration.Text

/-- Elements that have no content and no end tag. -/
def voidElements : List String :=
  ["area", "base", "br", "col", "embed", "hr", "img", "input", "link", "meta", "source", "track",
   "wbr"]

/-- Elements that have no markup of their own. -/
def containerTags : List String :=
  ["ng-container", "ng-template", "ng-content"]

/-- Attribute directives that every template may use. -/
def builtinDirectives : List String :=
  ["ngClass", "ngStyle"]

/-- The position of a cursor. -/
def positionOf (c : Cursor) : Position where
  line := 1 + c.before.count '\n'
  column := 1 + (c.before.takeWhile (· != '\n')).length
  offset := c.offset

/-- A finding about markup at a cursor. -/
def markupError (message : String) (c : Cursor) (attr : Option String) : Failure :=
  let p := positionOf c
  .finding (.markup message attr (some p.line) (some p.column) "")

/-- How many characters an interpolation's expression has, its body standing at the front; nothing
when it is never closed. -/
def interpolationLength? : Option Char → Nat → List Char → Option Nat
  | _, _, [] => none
  | some q, n, c :: cs => interpolationLength? (if c == q then none else some q) (n + 1) cs
  | none, n, c :: cs =>
      if Script.isQuote c then interpolationLength? (some c) (n + 1) cs
      else if c == '\x7d' && cs.head? == some '\x7d' then some n
      else interpolationLength? none (n + 1) cs

/-- The opening braces of an interpolation. -/
def opensInterpolation (cs : List Char) : Bool :=
  startsWith cs ['\x7b', '\x7b']

/-- An opening angle bracket that a letter follows. -/
def opensElement : List Char → Bool
  | '<' :: c :: _ => isLetter c
  | _ => false

/-- Text that ends at an element, an end tag or a comment. -/
def endsText (cs : List Char) : Bool :=
  opensElement cs || startsWith cs ['<', '/'] || startsWith cs ['<', '!', '-', '-']

/-- A character of a tag name after the first. -/
def isTagPart (c : Char) : Bool :=
  isWord c || c == ':' || c == '.' || c == '-'

/-- A tag name at the front of the text. -/
def tagName? : List Char → Option (List Char)
  | c :: cs => if isAsciiLetter c then some (c :: cs.takeWhile isTagPart) else none
  | [] => none

/-- The white space at the front, skipped. -/
def skipBlanks (c : Cursor) : Cursor :=
  c.advance (c.after.takeWhile isBlank).length

/-! ### Text and interpolations -/

/-- Whether an end tag closes just before a place, given the text before it, nearest first. -/
def closesBefore : List Char → Bool
  | '>' :: rest =>
      let rest := rest.dropWhile isBlank
      let name := rest.takeWhile isTagPart
      (name.getLast?.map isAsciiLetter).getD false &&
        startsWith ((rest.dropWhile isTagPart).dropWhile isBlank) ['/', '<']
  | _ => false

/-- Whether a blank stretch between `start` and `stop` stands between inline neighbours: the node
read just before it in the same run of text, and what follows it. -/
def separatesInline (previous : Option Node) (start stop : Cursor) (raw : List Char) : Bool :=
  let afterInterpolation := previous.any (·.isInterpolation)
  let beforeInterpolation := opensInterpolation stop.after
  if raw.isEmpty then false
  else if afterInterpolation && beforeInterpolation then true
  else if raw.contains '\n' then false
  else if afterInterpolation then opensElement stop.after
  else if beforeInterpolation && previous.isNone then
    startsWith start.before ['>', '/'] || closesBefore start.before
  else false

/-- The text node between two places, if it shows. -/
def textBetween (previous : Option Node) (start stop : Cursor) : List Node :=
  let raw := start.after.take (stop.offset - start.offset)
  if raw.all isBlank then
    if separatesInline previous start stop raw then [.text " " (positionOf start)] else []
  else [.text (String.ofList (collapseChars raw)) (positionOf start)]

/-- An interpolation at the cursor and the place after it. -/
def readInterpolation (c : Cursor) : Except Failure (Node × Cursor) :=
  match interpolationLength? none 0 (c.after.drop 2) with
  | none => .error (markupError "Unterminated interpolation '\x7b\x7b'" c none)
  | some n =>
      let expression := trim (String.ofList ((c.after.drop 2).take n))
      if expression == "" then .error (markupError "Empty interpolation" c none)
      else
        let position := positionOf c
        .ok (.interpolation expression (parseBoundValue expression (some position)) position,
          c.advance (n + 4))

/-- Text and interpolations up to the next tag or comment; `start` is where the pending text began
and the nodes so far are newest first. -/
def readText : Nat → List Node → Cursor → Cursor → Except Failure (List Node × Cursor)
  | 0, nodes, start, c => .ok ((textBetween nodes.head? start c ++ nodes).reverse, c)
  | fuel + 1, nodes, start, c =>
      if c.after.isEmpty then .ok ((textBetween nodes.head? start c ++ nodes).reverse, c)
      else if opensInterpolation c.after then
        match readInterpolation c with
        | .error e => .error e
        | .ok (node, after) =>
            readText fuel (node :: textBetween nodes.head? start c ++ nodes) after after
      else if endsText c.after then .ok ((textBetween nodes.head? start c ++ nodes).reverse, c)
      else readText fuel nodes start c.next

/-! ### Attributes -/

/-- An attribute as read: an ordinary one, or a structural directive that waits for its element. -/
inductive ReadAttribute where
  | plain (attr : Attribute)
  | structural (name value : String) (position : Position)

/-- Refuses an expression with an end tag or unbalanced brackets or quotes. -/
def checkExpression (name value : String) (c : Cursor) : Except Failure Unit :=
  if occursIn "</" value then .error (markupError "Unterminated binding" c (some name))
  else
    match Script.findUnbalanced value with
    | some problem =>
        .error (markupError s!"Unterminated binding ({problem.message})" c (some name))
    | none => .ok ()

/-- The trimmed expression of a binding, which must not be blank. -/
def bindingValue (name : String) (value : Option String) (c : Cursor) : Except Failure String := do
  let text := value.getD ""
  if isBlankText text then throw (markupError "Binding has no expression" c (some name))
  checkExpression name text c
  return trim text

/-- Escapes a static stretch of a template literal. -/
def literalText (s : String) : String :=
  replaceAll "$\x7b" "\\$\x7b" (replaceAll "\x60" "\\\x60" (replaceAll "\\" "\\\\" s))

/-- The static texts and expressions of an interpolated attribute value, in turn: `n` texts stand
before `n - 1` expressions. -/
def splitInterpolated (name : String) (c : Cursor) (cs : List Char) :
    Except Failure (List String × List String) :=
  match found : breakOn? ['\x7b', '\x7b'] cs with
  | none => .ok ([String.ofList cs], [])
  | some (before, body) =>
      match interpolationLength? none 0 body with
      | none => .error (markupError "Unterminated interpolation '\x7b\x7b'" c (some name))
      | some n => do
          let expression := trim (String.ofList (body.take n))
          if expression == "" then throw (markupError "Empty interpolation" c (some name))
          checkExpression name expression c
          let (texts, expressions) ← splitInterpolated name c (body.drop (n + 2))
          return (String.ofList before :: texts, expression :: expressions)
termination_by cs.length
decreasing_by
  rw [eq_append_of_breakOn? found]
  simp only [List.length_drop, List.length_append, List.length_cons, List.length_nil]
  omega

/-- Alternates escaped texts and substitutions. -/
def literalBody : List String → List String → String
  | t :: ts, e :: es => literalText t ++ "$\x7b" ++ e ++ "\x7d" ++ literalBody ts es
  | t :: _, [] => literalText t
  | [], _ => ""

/-- An attribute value with interpolations as a binding: a single interpolation binds its
expression, a mixed value binds a template literal, and a mixed value with pipes stays static. -/
def interpolatedAttribute (name value : String) (c : Cursor) :
    Except Failure (Option Attribute) := do
  let position := positionOf c
  let (texts, expressions) ← splitInterpolated name c value.toList
  match texts, expressions with
  | ["", ""], [e] => return some (.property name e (parseBoundValue e (some position)) position false)
  | _, _ =>
      if expressions.any hasPipes then return none
      let literal := "\x60" ++ literalBody texts expressions ++ "\x60"
      return some (.property name literal (.text literal) position false)

/-- The name without `front` characters at the front and `back` at the end. -/
def innerName (front back : Nat) (name : String) : String :=
  let cs := name.toList
  String.ofList ((cs.drop front).take (cs.length - front - back))

/-- Decides what an attribute means from its name. -/
def classifyAttribute (name : String) (value : Option String) (c : Cursor) :
    Except Failure ReadAttribute := do
  let position := positionOf c
  let unterminated := markupError "Unterminated binding name" c (some name)
  if name.startsWith "[(" then
    if !name.endsWith ")]" || name.length ≤ 4 then throw unterminated
    return .plain (.twoWay (innerName 2 2 name) (← bindingValue name value c) position)
  if name.startsWith "bindon-" then
    return .plain (.twoWay (innerName 7 0 name) (← bindingValue name value c) position)
  if name.startsWith "[" || name.startsWith "bind-" then
    let bracketed := name.startsWith "["
    if bracketed && (!name.endsWith "]" || name.length ≤ 2) then throw unterminated
    let property := if bracketed then innerName 1 1 name else innerName 5 0 name
    let expression ← bindingValue name value c
    let bound := parseBoundValue expression (some position)
    if builtinDirectives.contains property then
      return .plain (.directive property (some expression) (some bound) position true none)
    return .plain (.property property expression bound position false)
  if name.startsWith "(" || name.startsWith "on-" then
    let bracketed := name.startsWith "("
    if bracketed && (!name.endsWith ")" || name.length ≤ 2) then throw unterminated
    let event := if bracketed then innerName 1 1 name else innerName 3 0 name
    return .plain (.event event (← bindingValue name value c) position false)
  if name.startsWith "*" then
    if name.length = 1 then
      throw (markupError "Structural directive without a name" c (some name))
    match value with
    | some v => checkExpression name v c
    | none => pure ()
    return .structural (innerName 1 0 name) (value.getD "") position
  if name.startsWith "#" || name.startsWith "ref-" then
    let reference := if name.startsWith "#" then innerName 1 0 name else innerName 4 0 name
    return .plain (.reference reference (value.filter (· ≠ "")) position)
  if builtinDirectives.contains name then
    return .plain (.directive name value (value.map .text) position false none)
  if name.endsWith "]" || name.endsWith ")" then throw unterminated
  match value with
  | some v =>
      if occursIn "\x7b\x7b" v then
        match ← interpolatedAttribute name v c with
        | some attr => return .plain attr
        | none => return .plain (.static name value position)
      else return .plain (.static name value position)
  | none => return .plain (.static name value position)

/-- A character of an attribute name. -/
def isAttributeName (c : Char) : Bool :=
  !(isBlank c || c == '=' || c == '>' || c == '/' || c == '"' || c == '\'')

/-- A character of an attribute value without quotes. -/
def isUnquotedValue (c : Char) : Bool :=
  !(isBlank c || c == '>' || c == '"' || c == '\'' || c == '\x60' || c == '=' || c == '<')

/-- The value after an equals sign; `start` is where the attribute begins. -/
def readAttributeValue (name : String) (start c : Cursor) : Except Failure (String × Cursor) :=
  let unquoted :=
    let value := c.after.takeWhile isUnquotedValue
    if value.isEmpty then .error (markupError "Missing attribute value" start (some name))
    else .ok (String.ofList value, c.advance value.length)
  match c.after with
  | q :: rest =>
      if q == '\'' || q == '"' then
        let value := rest.takeWhile (· != q)
        if value.length == rest.length then
          .error (markupError "Unterminated binding" start (some name))
        else .ok (String.ofList value, c.advance (value.length + 2))
      else unquoted
  | [] => unquoted

/-- An attribute at the cursor and the place after it. -/
def readAttribute (start : Cursor) : Except Failure (ReadAttribute × Cursor) := do
  let name := start.after.takeWhile isAttributeName
  if name.isEmpty then throw (markupError "Invalid attribute syntax" start none)
  let text := String.ofList name
  let c := skipBlanks (start.advance name.length)
  match c.after with
  | '=' :: _ =>
      let (value, after) ← readAttributeValue text start (skipBlanks c.next)
      return (← classifyAttribute text (some value) start, after)
  | _ => return (← classifyAttribute text none start, c)

/-- What a start tag holds after its name. -/
structure StartTag where
  attributes : List Attribute
  structurals : List (String × String × Position)
  selfClosing : Bool
  rest : Cursor

/-- The attributes of a start tag up to its end; those so far are newest first. -/
def readAttributes (tag : String) (start : Cursor) :
    Nat → List Attribute → List (String × String × Position) → Cursor → Except Failure StartTag
  | 0, _, _, _ => .error (markupError s!"Unterminated start tag <{tag}>" start none)
  | fuel + 1, attributes, structurals, c =>
      let c := skipBlanks c
      match c.after with
      | [] => .error (markupError s!"Unterminated start tag <{tag}>" start none)
      | '/' :: '>' :: _ => .ok ⟨attributes.reverse, structurals.reverse, true, c.advance 2⟩
      | '>' :: _ => .ok ⟨attributes.reverse, structurals.reverse, false, c.next⟩
      | _ =>
          match readAttribute c with
          | .error e => .error e
          | .ok (.plain a, after) => readAttributes tag start fuel (a :: attributes) structurals after
          | .ok (.structural name value position, after) =>
              readAttributes tag start fuel attributes ((name, value, position) :: structurals) after

/-! ### Elements -/

/-- The node of an element, wrapped in its structural directive if it has one. -/
def buildElement (tag : String) (t : StartTag) (children : List Node) (position : Position) : Node :=
  let node :=
    if containerTags.contains tag then .container tag t.attributes children position
    else .element tag t.attributes children position t.selfClosing none
  match t.structurals with
  | (name, value, place) :: _ =>
      .structural name value (parseClauses name value) node place none
  | [] => node

/-- A start tag at the cursor: its name and contents, within a number of attributes. -/
def readStartTag (bound : Nat) (c : Cursor) : Except Failure (String × StartTag) := do
  match tagName? (c.after.drop 1) with
  | none => throw (.fault (.absentValue "group"))
  | some name =>
      let tag := String.ofList name
      let t ← readAttributes tag c bound [] [] (c.advance (name.length + 1))
      if 1 < t.structurals.length then
        let p := positionOf c
        throw (.finding (.duplicateStructural tag (t.structurals.map (·.1))
          (some p.line) (some p.column) ""))
      return (tag, t)

/-- An end tag at the cursor: its name and the place after it. -/
def readEndTag? (c : Cursor) : Option (String × Cursor) :=
  let rest := skipBlanks (c.advance 2)
  match tagName? rest.after with
  | none => none
  | some name =>
      let stop := skipBlanks (rest.advance name.length)
      match stop.after with
      | '>' :: _ => some (String.ofList name, stop.next)
      | _ => none

/-- A comment at the cursor, skipped; nothing when it never ends. -/
def skipComment? (c : Cursor) : Option Cursor :=
  (indexOf? ['-', '-', '>'] (c.after.drop 4)).map fun n => c.advance (n + 7)

/-- The nodes up to the end tag of `parent`, given with the place where it starts, or up to the end
of the text; those so far are newest first. -/
def readNodes : Nat → Option (String × Cursor) → List Node → Cursor →
    Except Failure (List Node × Cursor)
  | 0, _, nodes, c => .ok (nodes.reverse, c)
  | fuel + 1, parent, nodes, c =>
      match c.after with
      | [] =>
          match parent with
          | some (tag, start) => .error (markupError s!"Unclosed element <{tag}>" start none)
          | none => .ok (nodes.reverse, c)
      | _ =>
          if startsWith c.after ['<', '!', '-', '-'] then
            match skipComment? c with
            | some after => readNodes fuel parent nodes after
            | none => .error (markupError "Unterminated comment" c none)
          else if startsWith c.after ['<', '/'] then
            match readEndTag? c with
            | none => .error (markupError "Malformed closing tag" c none)
            | some (tag, after) =>
                match parent with
                | none => .error (markupError s!"Unexpected closing tag </{tag}>" c none)
                | some (expected, _) =>
                    if toLower tag == toLower expected then .ok (nodes.reverse, after)
                    else .error (markupError
                      s!"Unexpected closing tag </{tag}>, expected </{expected}>" c none)
          else if opensElement c.after then
            match readStartTag (fuel + 1) c with
            | .error e => .error e
            | .ok (tag, t) =>
                if t.selfClosing || voidElements.contains (toLower tag) then
                  readNodes fuel parent (buildElement tag t [] (positionOf c) :: nodes) t.rest
                else
                  match readNodes fuel (some (tag, c)) [] t.rest with
                  | .error e => .error e
                  | .ok (children, after) =>
                      readNodes fuel parent (buildElement tag t children (positionOf c) :: nodes)
                        after
          else
            match readText (fuel + 1) [] c c with
            | .error e => .error e
            | .ok (texts, after) => readNodes fuel parent (texts.reverse ++ nodes) after

/-- Reads a template, no loop of the reader making more rounds than the bound. -/
def parseWithin (bound : Nat) (s : String) : Except Failure (List Node) :=
  if isBlankText s then .ok []
  else
    match readNodes bound none [] (.start s.toList) with
    | .ok (nodes, _) => .ok nodes
    | .error e => .error e

/-- Reads a template; each round of a loop takes at least one character. -/
def parse (s : String) : Except Failure (List Node) :=
  parseWithin (s.toList.length + 1) s

/-- Whether a template can be read. -/
def isValid (s : String) : Except Fault Bool :=
  match parse s with
  | .ok _ => .ok true
  | .error (.finding _) => .ok false
  | .error (.fault f) => .error f

end ReactMigration.Template
