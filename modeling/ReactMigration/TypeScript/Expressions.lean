import ReactMigration.TypeScript.Markup

/-!
Expressions.  Operators of all ranks are folded from left to right: what a tree is used for never
depends on how binary operators nest.
-/

namespace ReactMigration.TypeScript.Reader

variable (r : Rules)

/-- An expression that commas do not split. -/
abbrev item : Reader Pieces :=
  r (.assignment false false)

/-! ### Functions -/

/-- The body of an arrow function. -/
def arrowBody : Reader Pieces := do
  if (← peek).1 == '\x7b' then r .block else r (.assignment false false)

/-- An arrow function with a parameter list. -/
def arrowFunction (noResultType : Bool) : Reader Pieces := do
  let front ← seq [opt (do
      let w ← word "async"
      check (!(← newlineAhead))
      return w),
    opt (typeParameters r), inRole .parameters (r .parameters),
    if noResultType then pure [] else opt (inRole .returnType (resultType r))]
  check (!(← newlineAhead))
  let back ← seq [op "=>", inRole .body (arrowBody r)]
  wrap (.phrase "arrow_function") (front ++ back)

/-- An arrow function of one bare parameter. -/
def bareArrow : Reader Pieces := do
  let front ← firstOf [
    do
      let w ← word "async"
      check (!(← newlineAhead))
      return w ++ (← name .identifier),
    name .identifier]
  check (!(← newlineAhead))
  let back ← seq [op "=>", inRole .body (arrowBody r)]
  wrap (.phrase "arrow_function") (front ++ back)

/-- Whether the parentheses at the next token could be an arrow function's parameters. -/
def arrowAhead : Reader Bool := do
  let e ← read
  let i ← here
  match closingBracket? e (e.chars.size + 1) [] i with
  | some j =>
      let k := tokenStart e (e.chars.size + 1) (j + 1)
      return (e.at k == '=' && e.at (k + 1) == '>') || e.at k == ':'
  | none => return false

/-- A function expression. -/
def functionExpression : Reader Pieces :=
  phrase "function_expression" (seq [opt (word "async"), word "function", opt (mark "*"),
    opt (inRole .name (name .identifier)), callSignature r, inRole .body (r .block)])

/-- A class expression. -/
def classExpression : Reader Pieces :=
  phrase "class" (seq [many (r .decorator), word "class", opt (do
      check ((← peekWord) != "extends" && (← peekWord) != "implements")
      inRole .name (name (.phrase "type_identifier"))), r .classTail])

/-! ### Literals with parts -/

/-- An array. -/
def array : Reader Pieces := do
  let spread := phrase "spread_element" (seq [op "...", r (.assignment false false)])
  wrap .array (← seq [mark "[", many (firstOf [mark ",", spread, item r]), mark "]"])

/-- An object. -/
def object : Reader Pieces := do
  let member := firstOf [
    phrase "spread_element" (seq [op "...", item r]),
    r (.member false)]
  wrap .object (← seq [mark "\x7b", listOf member (mark ","), mark "\x7d"])

/-- A member of an object: a method, a pair or a name on its own. -/
def objectMember : Reader Pieces := do
  let starts := fun c => isNameStart c || c.isDigit || "['\"#*".toList.contains c
  let front ← seq [many (modifier ["async", "get", "set", "static", "public", "private",
      "protected", "readonly", "override"] starts), opt (mark "*")]
  let key ← propertyName (r .expression)
  let (c, _) ← peek
  if c == '(' || c == '<' then
    let back ← seq [callSignature r, inRole .body (r .block)]
    wrap .methodDefinition (front ++ key.map (·.withRole .name) ++ back)
  else if c == '?' then
    let back ← seq [mark "?", callSignature r, inRole .body (r .block)]
    wrap .methodDefinition (front ++ key.map (·.withRole .name) ++ back)
  else if c == ':' then
    check front.isEmpty
    let back ← seq [mark ":", inRole .value (item r)]
    wrap .pair (key.map (·.withRole .key) ++ back)
  else
    check (front.isEmpty && key.all (·.kind == .phrase "property_identifier"))
    let plain := key.map fun n => Node.mk .shorthandProperty .none n.start n.stop []
    (do
      let back ← seq [op "=", item r]
      wrap (.phrase "object_assignment_pattern") (plain ++ back)) <|> pure plain

/-! ### Primary expressions -/

/-- A parenthesized expression. -/
def parenthesized : Reader Pieces := do
  wrap .parenthesized (← seq [mark "(", r .expression, opt (typeClause r), mark ")"])

/-- A type in angle brackets before its operand. -/
def typeAssertion : Reader Pieces :=
  phrase "type_assertion" (seq [typeArguments r, r (.unary false)])

/-- The words that stand for themselves. -/
def literalWord (w : String) : Option Kind :=
  match w with
  | "this" => some (.phrase "this")
  | "super" => some (.phrase "super")
  | "null" => some .null
  | "true" => some .true
  | "false" => some .false
  | "undefined" => some (.phrase "undefined")
  | _ => none

/-- An expression that no operator joins. -/
def primary (noArrowType : Bool) : Reader Pieces := do
  let (c, d) ← peek
  let w ← peekWord
  if c == '(' then
    if ← arrowAhead then arrowFunction r noArrowType <|> parenthesized r else parenthesized r
  else if c == '[' then array r
  else if c == '\x7b' then object r
  else if c == '\'' || c == '"' then string false
  else if c == '\x60' then template .templateString (r .expression)
  else if c.isDigit || (c == '.' && d.isDigit) then number
  else if c == '/' then regex
  else if c == '#' then propertyName (r .expression)
  else if c == '@' then classExpression r
  else if c == '<' then
    if (← read).markup then arrowFunction r noArrowType <|> r .element
    else arrowFunction r noArrowType <|> typeAssertion r
  else if w == "" then fail
  else
    match literalWord w with
    | some kind => anyWord kind
    | none =>
        if w == "function" then functionExpression r
        else if w == "class" then classExpression r
        else if w == "import" then
          firstOf [
            phrase "meta_property" (seq [word "import", mark ".", anyWord .identifier]),
            anyWord (.phrase "import")]
        else if w == "async" then
          firstOf [functionExpression r, bareArrow r,
            do
              check (← follows (seq [word "async", mark "(" <|> mark "<"]))
              arrowFunction r noArrowType,
            name .identifier]
        else bareArrow r <|> name .identifier

/-! ### Suffixes -/

/-- A member of the base expression. -/
def memberSuffix (base : Pieces) : Reader Pieces := do
  let (c, _) ← peek
  if c == '.' then
    let rest ← seq [mark ".", opt (mark "#"), anyWord (.phrase "property_identifier")]
    wrap (.phrase "member_expression") (base ++ rest)
  else if c == '[' then
    let rest ← seq [mark "[", r .expression, mark "]"]
    wrap (.phrase "subscript_expression") (base ++ rest)
  else if c == '!' then
    check ((← peekOperator) == "!" && !(← newlineAhead))
    let rest ← mark "!"
    wrap .nonNullExpression (base ++ rest)
  else fail

/-- A call of the base expression. -/
def callSuffix (base : Pieces) : Reader Pieces := do
  let (c, _) ← peek
  let callee := base.map (·.withRole .function)
  if c == '(' then
    wrap .callExpression (callee ++ (← inRole .arguments (arguments r)))
  else if c == '\x60' then
    wrap .callExpression (callee ++ (← inRole .arguments (template .templateString (r .expression))))
  else if c == '<' then
    let args ← typeArguments r
    let (c, _) ← peek
    let newline ← newlineAhead
    if c == '(' then
      wrap .callExpression (callee ++ args ++ (← inRole .arguments (arguments r)))
    else if c == '\x60' then
      wrap .callExpression
        (callee ++ args ++ (← inRole .arguments (template .templateString (r .expression))))
    else
      check (newline || (← atEnd) || ")],;:\x7d".toList.contains c)
      wrap (.phrase "instantiation_expression") (base ++ args)
  else fail

/-- A member or call through an optional chain. -/
def chainSuffix (base : Pieces) : Reader Pieces := do
  let sign ← phrase "optional_chain" (op "?.")
  let (c, _) ← peek
  if c == '(' || c == '<' then
    let rest ← seq [opt (typeArguments r), inRole .arguments (arguments r)]
    wrap .callExpression (base.map (·.withRole .function) ++ sign ++ rest)
  else if c == '[' then
    let rest ← seq [mark "[", r .expression, mark "]"]
    wrap (.phrase "subscript_expression") (base ++ sign ++ rest)
  else
    let rest ← seq [opt (mark "#"), anyWord (.phrase "property_identifier")]
    wrap (.phrase "member_expression") (base ++ sign ++ rest)

/-- Suffixes of an expression as long as they follow. -/
def suffixesWithin (calls : Bool) : Nat → Pieces → Reader Pieces
  | 0, base => pure base
  | fuel + 1, base => do
      let step := if calls then firstOf [memberSuffix r base, callSuffix r base, chainSuffix r base]
        else memberSuffix r base
      match ← opt step with
      | [] => return base
      | next => suffixesWithin calls fuel next

/-- Whether an expression may be followed by suffixes: an arrow function ends where its body does. -/
def takesSuffixes (base : Pieces) : Bool :=
  base.all (·.kind != .phrase "arrow_function")

/-- Suffixes of an expression. -/
def suffixes (calls : Bool) (base : Pieces) : Reader Pieces := do
  if takesSuffixes base then suffixesWithin r calls (← read).chars.size base else return base

/-- The operand of `new`: members but no calls. -/
def constructorOperand : Reader Pieces := do
  if (← peekWord) == "new" then
    let rest ← seq [word "new", r .constructor, opt (typeArguments r), arguments r]
    suffixes r false (← wrap (.phrase "new_expression") rest)
  else suffixes r false (← primary r false)

/-- An object creation, or the word's meta property. -/
def newExpression : Reader Pieces := do
  let sign ← word "new"
  if (← peek).1 == '.' then
    let rest ← seq [mark ".", anyWord .identifier]
    wrap (.phrase "meta_property") (sign ++ rest)
  else
    let rest ← seq [r .constructor, opt (do
        let args ← typeArguments r
        let (c, _) ← peek
        check (c == '(' || (← newlineAhead) || ")],;:\x7d".toList.contains c)
        return args), opt (inRole .arguments (arguments r))]
    wrap (.phrase "new_expression") (sign ++ rest)

/-! ### Operators -/

/-- An expression with its suffixes and a trailing increment or decrement. -/
def suffixed (noArrowType : Bool) : Reader Pieces := do
  let base ← if (← peekWord) == "new" then newExpression r else primary r noArrowType
  let full ← suffixes r true base
  let o ← peekOperator
  if (o == "++" || o == "--") && !(← newlineAhead) && takesSuffixes base then
    wrap (.phrase "update_expression") (full ++ (← mark o))
  else return full

/-- An expression with operators in front. -/
def unary (noArrowType : Bool) : Reader Pieces := do
  let o ← peekOperator
  let w ← peekWord
  if o == "++" || o == "--" then
    phrase "update_expression" (seq [mark o, r (.unary noArrowType)])
  else if o == "!" || o == "~" || o == "+" || o == "-" then
    phrase "unary_expression" (seq [mark o, r (.unary noArrowType)])
  else if w == "typeof" || w == "void" || w == "delete" then
    phrase "unary_expression" (seq [word w, r (.unary noArrowType)])
  else if w == "await" then
    phrase "await_expression" (seq [word w, r (.unary noArrowType)]) <|> suffixed r noArrowType
  else suffixed r noArrowType

/-- Operators between two operands. -/
def binaryOperators : List String :=
  ["===", "!==", "==", "!=", "<=", ">=", "<", ">", "&&", "||", "??", "+", "-", "*", "/", "%", "**",
   "&", "|", "^", "<<", ">>", ">>>"]

/-- Operands joined by operators, casts included. -/
def binaryWithin (noIn noArrowType : Bool) : Nat → Pieces → Reader Pieces
  | 0, base => pure base
  | fuel + 1, base => do
      let o ← peekOperator
      let w ← peekWord
      let newline ← newlineAhead
      let step : Reader Pieces :=
        if binaryOperators.contains o then do
          let rest ← seq [mark o, r (.unary noArrowType)]
          wrap (.phrase "binary_expression") (base ++ rest)
        else if w == "instanceof" || (w == "in" && !noIn) then do
          let rest ← seq [word w, r (.unary noArrowType)]
          wrap (.phrase "binary_expression") (base ++ rest)
        else if (w == "as" || w == "satisfies") && !newline then do
          let rest ← seq [word w, word "const" <|> r .type]
          wrap (if w == "as" then .asExpression else .satisfiesExpression) (base ++ rest)
        else fail
      match ← opt step with
      | [] => return base
      | next => binaryWithin noIn noArrowType fuel next

/-- Operands joined by operators. -/
def binary (noIn noArrowType : Bool) : Reader Pieces := do
  let base ← unary r noArrowType
  if takesSuffixes base then binaryWithin r noIn noArrowType (← read).chars.size base
  else return base

/-- A choice between two expressions, or just its test. -/
def conditional (noIn noArrowType : Bool) : Reader Pieces := do
  let test ← binary r noIn noArrowType
  if takesSuffixes test && (← peekOperator) == "?" then
    let branches (first : Bool) :=
      seq [mark "?", r (.assignment false first), mark ":", r (.assignment noIn noArrowType)]
    (do wrap (.phrase "ternary_expression") (test ++ (← branches false))) <|>
      (do wrap (.phrase "ternary_expression") (test ++ (← branches true))) <|> pure test
  else return test

/-- Operators that write to their left operand. -/
def assignmentOperators : List String :=
  ["=", "+=", "-=", "*=", "/=", "%=", "^=", "&=", "|=", ">>=", ">>>=", "<<=", "**=", "&&=", "||=",
   "??="]

/-- An expression that commas do not split. -/
def assignment (noIn noArrowType : Bool) : Reader Pieces := do
  if (← peekWord) == "yield" then
    phrase "yield_expression" (seq [word "yield", opt (mark "*"), opt (do
      check (!(← newlineAhead))
      r (.assignment noIn noArrowType))])
  else
    let target ← conditional r noIn noArrowType
    let o ← peekOperator
    if takesSuffixes target && assignmentOperators.contains o then
      (do
        let rest ← seq [mark o, r (.assignment noIn noArrowType)]
        wrap (.phrase "assignment_expression") (target ++ rest)) <|> pure target
    else return target

/-- Any expression. -/
def expression : Reader Pieces := do
  let parts ← sepBy1 (item r) (mark ",")
  if parts.length ≤ 1 then return parts else wrap (.phrase "sequence_expression") parts

end ReactMigration.TypeScript.Reader
