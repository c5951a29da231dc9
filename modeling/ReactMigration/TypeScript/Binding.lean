import ReactMigration.TypeScript.Types

/-!
Binding patterns, function parameters and decorators.
-/

namespace ReactMigration.TypeScript.Reader

variable (r : Rules)

/-- A value after an equals sign. -/
def initializer : Reader Pieces :=
  seq [op "=", inRole .value (r (.assignment false false))]

/-- A pattern with an optional default. -/
def defaultedPattern : Reader Pieces := do
  let p ← r .pattern
  (do
    let d ← seq [op "=", r (.assignment false false)]
    wrap (.phrase "assignment_pattern") (p ++ d)) <|> pure p

/-- A pattern that takes the remaining values. -/
def restPattern : Reader Pieces :=
  phrase "rest_pattern" (seq [op "...", r .pattern])

/-- A destructured object. -/
def objectPattern : Reader Pieces :=
  let property := firstOf [
    restPattern r,
    phrase "pair_pattern" (seq [inRole .key (propertyName (r .expression)), mark ":",
      defaultedPattern r]),
    phrase "object_assignment_pattern" (seq [name .identifier, op "=",
      r (.assignment false false)]),
    name (.phrase "shorthand_property_identifier_pattern")]
  phrase "object_pattern" (seq [mark "\x7b", listOf property (mark ","), mark "\x7d"])

/-- A destructured array. -/
def arrayPattern : Reader Pieces :=
  phrase "array_pattern" (seq [mark "[", many (firstOf [mark ",", restPattern r,
    defaultedPattern r]), mark "]"])

/-- A name or a destructuring pattern. -/
def pattern : Reader Pieces := do
  let (c, _) ← peek
  if c == '\x7b' then objectPattern r
  else if c == '[' then arrayPattern r
  else name .identifier

/-- A word that modifies what follows, only if something follows that it can modify. -/
def modifier (words : List String) (next : Char → Bool) : Reader Pieces := do
  let w ← peekWord
  check (words.contains w)
  let m ← word w
  check (next (← peek).1)
  if ["public", "private", "protected"].contains w then wrap .accessibilityModifier m
  else if w == "override" then wrap (.phrase "override_modifier") m
  else return m

/-- One parameter. -/
def parameter : Reader Pieces := do
  let starts := fun c => isNameStart c || c == '\x7b' || c == '['
  let front ← seq [many (r .decorator),
    many (modifier ["public", "private", "protected", "override", "readonly", "declare"] starts),
    inRole .pattern (firstOf [phrase "rest_pattern" (seq [op "...", r .pattern]), word "this",
      r .pattern])]
  let mark? ← opt (mark "?")
  let back ← seq [opt (inRole .type (typeClause r)), opt (initializer r)]
  wrap (if mark?.isEmpty then .requiredParameter else .optionalParameter) (front ++ mark? ++ back)

/-- A parameter list. -/
def parameters : Reader Pieces :=
  phrase "formal_parameters" (seq [mark "(", listOf (parameter r) (mark ","), mark ")"])

/-- Call arguments. -/
def arguments : Reader Pieces :=
  let argument := phrase "spread_element" (seq [op "...", r (.assignment false false)]) <|>
    r (.assignment false false)
  phrase "arguments" (seq [mark "(", listOf argument (mark ","), mark ")"])

/-! ### Matching brackets -/

/-- The offset of the bracket that empties the stack of awaited closers, strings, templates and
comments being skipped. -/
def closingBracket? (e : Env) : Nat → List Char → Nat → Option Nat
  | 0, _, _ => none
  | fuel + 1, awaited, i =>
      let c := e.at i
      if e.chars.size ≤ i then none
      else
        match awaited with
        | '\x60' :: outer =>
            if c == '\\' then closingBracket? e fuel awaited (i + 2)
            else if c == '\x60' then closingBracket? e fuel outer (i + 1)
            else if c == '$' && e.at (i + 1) == '\x7b' then
              closingBracket? e fuel ('\x7d' :: awaited) (i + 2)
            else closingBracket? e fuel awaited (i + 1)
        | _ =>
            if c == '/' && e.at (i + 1) == '/' then
              closingBracket? e fuel awaited (lineCommentEnd e e.chars.size (i + 2))
            else if c == '/' && e.at (i + 1) == '*' then
              closingBracket? e fuel awaited (blockCommentEnd e e.chars.size (i + 2))
            else if c == '\'' || c == '"' then
              match stringEnd? e c false (e.chars.size + 1) (i + 1) with
              | some j => closingBracket? e fuel awaited j
              | none => closingBracket? e fuel awaited (i + 1)
            else if c == '\x60' then closingBracket? e fuel ('\x60' :: awaited) (i + 1)
            else if c == '(' then closingBracket? e fuel (')' :: awaited) (i + 1)
            else if c == '[' then closingBracket? e fuel (']' :: awaited) (i + 1)
            else if c == '\x7b' then closingBracket? e fuel ('\x7d' :: awaited) (i + 1)
            else if c == ')' || c == ']' || c == '\x7d' then
              match awaited with
              | top :: outer =>
                  if top != c then none
                  else if outer.isEmpty then some i
                  else closingBracket? e fuel outer (i + 1)
              | [] => none
            else closingBracket? e fuel awaited (i + 1)

/-- Arguments that could not be read but whose parentheses match: one error from the first to the
last of them. -/
def brokenArguments : Reader Pieces := do
  let e ← read
  let i ← here
  check (e.at i == '(')
  match closingBracket? e (e.chars.size + 1) [] i with
  | some j =>
      set (j + 1)
      return [.mk (.phrase "arguments") .none i (j + 1) [.mk .error .none (i + 1) j []]]
  | none => fail

/-- A decorator. -/
def decorator : Reader Pieces := do
  let sign ← mark "@"
  let target : Reader Pieces := do
    let base ← anyWord .identifier
    let rest ← many (seq [mark ".", anyWord (.phrase "property_identifier")])
    if rest.isEmpty then return base else wrap (.phrase "member_expression") (base ++ rest)
  let called : Reader Pieces := do
    let parts ← seq [inRole .function target, opt (typeArguments r),
      inRole .arguments (arguments r <|> brokenArguments)]
    wrap .callExpression parts
  let body ← firstOf [
    do wrap .parenthesized (← seq [mark "(", r .expression, mark ")"]),
    called,
    target]
  wrap .decorator (sign ++ body)

end ReactMigration.TypeScript.Reader
