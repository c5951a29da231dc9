import ReactMigration.TypeScript.Literal

/-!
Types, and the annotations, arguments and parameters that hold them.
-/

namespace ReactMigration.TypeScript.Reader

variable (r : Rules)

/-- A type after a colon. -/
def typeClause : Reader Pieces := do
  wrap .typeClause (← seq [mark ":", r .type])

/-- Type arguments between angle brackets. -/
def typeArguments : Reader Pieces := do
  wrap .typeArguments (← seq [mark "<", listOf (r .type) (mark ","), mark ">"])

/-- One type parameter. -/
def typeParameter : Reader Pieces :=
  phrase "type_parameter" (seq [opt (do
      check ((← follows (seq [word "const", name .identifier])))
      word "const"),
    opt (do
      check ((← follows (seq [word "in", name .identifier])))
      word "in"),
    opt (do
      check ((← follows (seq [word "out", name .identifier])))
      word "out"),
    inRole .name (name (.phrase "type_identifier")),
    opt (phrase "constraint" (seq [word "extends", r .type])),
    opt (phrase "default_type" (seq [op "=", r .type]))])

/-- Type parameters between angle brackets. -/
def typeParameters : Reader Pieces := do
  wrap .typeParameters (← seq [mark "<", listOf (typeParameter r) (mark ","), mark ">"])

/-- The result type of a function: a plain annotation, a type test or an assertion. -/
def resultType : Reader Pieces := do
  let _ ← follows (mark ":")
  let typeTest := phrase "type_predicate" (seq [
    inRole .name (word "this" <|> name .identifier), (do
      check (!(← newlineAhead))
      word "is"), inRole .type (r .type)])
  firstOf [
    phrase "asserts_annotation" (seq [mark ":", phrase "asserts" (seq [word "asserts",
      typeTest <|> word "this" <|> (do
        check (!(← newlineAhead))
        check ((← peekWord) != "is")
        name .identifier)])]),
    phrase "type_predicate_annotation" (seq [mark ":", typeTest]),
    typeClause r]

/-- Type parameters, parameters and result type of a function. -/
def callSignature : Reader Pieces :=
  seq [opt (typeParameters r), inRole .parameters (r .parameters),
    opt (inRole .returnType (resultType r))]

/-- A member of an object type. -/
def typeMember : Reader Pieces := do
  let property := propertyName (r .expression)
  let modifiers := many (do
    let w ← peekWord
    check (["readonly", "get", "set", "static", "public", "private", "protected", "async",
      "override"].contains w)
    let m ← word w
    let (c, d) ← peek
    check (isNameStart c || c.isDigit || c == '[' || c == '\'' || c == '"' || (c == '#' && d != ' '))
    return m)
  let sign := opt (do
    let s ← (mark "+" <|> mark "-")
    check ((← peekWord) == "readonly" || (← peek).1 == '?')
    return s)
  firstOf [
    -- Mapped and index members.
    phrase "index_signature" (seq [sign, opt (word "readonly"), mark "[", firstOf [
        seq [inRole .name (name .identifier), mark ":", r .type],
        phrase "mapped_type_clause" (seq [name (.phrase "type_identifier"), word "in", r .type,
          opt (seq [word "as", r .type])])],
      mark "]", opt (mark "+" <|> mark "-"), opt (mark "?"), opt (typeClause r)]),
    phrase "construct_signature" (seq [opt (word "abstract"), word "new", opt (typeParameters r),
      r .parameters, opt (typeClause r)]),
    phrase "call_signature" (callSignature r),
    phrase "method_signature" (seq [modifiers, inRole .name property, opt (mark "?"),
      callSignature r]),
    phrase "property_signature" (seq [modifiers, inRole .name property, opt (mark "?"),
      opt (typeClause r)])]

/-- An object type. -/
def objectType : Reader Pieces :=
  phrase "object_type" (seq [mark "\x7b", many (seq [typeMember r, firstOf [
      mark ";", mark ",", do
        let newline ← newlineAhead
        check (newline || (← peek).1 == '\x7d')
        return []]]), many (mark ";" <|> mark ","), mark "\x7d"])

/-- A parameter list that an arrow follows. -/
def functionType : Reader Pieces := do
  phrase "function_type" (seq [opt (typeParameters r), r .parameters, op "=>", firstOf [
    phrase "asserts" (seq [word "asserts", phrase "type_predicate" (seq [
      word "this" <|> name .identifier, word "is", r .type]) <|> name .identifier]),
    phrase "type_predicate" (seq [word "this" <|> name .identifier, word "is", r .type]),
    r .type]])

/-- A dotted name, with type arguments if they follow directly. -/
def typeName : Reader Pieces := do
  let base ← name (.phrase "type_identifier")
  let rest ← many (seq [mark ".", anyWord (.phrase "type_identifier")])
  let path ← if rest.isEmpty then pure base else wrap (.phrase "nested_type_identifier") (base ++ rest)
  let newline ← newlineAhead
  if !newline && (← peek).1 == '<' then
    (do
      let args ← typeArguments r
      wrap (.phrase "generic_type") (path ++ args)) <|> pure path
  else return path

/-- The operand of a type query. -/
def typeQuery : Reader Pieces :=
  phrase "type_query" (seq [word "typeof", firstOf [
    seq [word "import", mark "(", r .expression, mark ")"], word "this", name .identifier],
    many (firstOf [seq [mark ".", opt (mark "#"), anyWord (.phrase "property_identifier")],
      seq [op "?.", anyWord (.phrase "property_identifier")],
      do
        check (!(← newlineAhead))
        seq [mark "[", (number <|> string false), mark "]"]]),
    opt (do
      check (!(← newlineAhead))
      typeArguments r)])

/-- A member of a tuple type. -/
def tupleMember : Reader Pieces :=
  let spread := opt (op "...")
  firstOf [
    do
      let a ← seq [inRole .name (anyWord .identifier), mark "?", typeClause r]
      wrap .optionalParameter a,
    do
      let a ← seq [spread, inRole .name (anyWord .identifier), typeClause r]
      wrap .requiredParameter a,
    seq [op "...", r .type],
    phrase "optional_type" (seq [r .type, mark "?"]),
    r .type]

/-- A type that no operator joins. -/
def primaryType : Reader Pieces := do
  let (c, d) ← peek
  let w ← peekWord
  if c == '(' then phrase "parenthesized_type" (seq [mark "(", r .type, mark ")"])
  else if c == '\x7b' then objectType r
  else if c == '[' then phrase "tuple_type" (seq [mark "[", listOf (tupleMember r) (mark ","), mark "]"])
  else if c == '\'' || c == '"' then phrase "literal_type" (string false)
  else if c == '\x60' then template (.phrase "template_literal_type") (r .type)
  else if c.isDigit || (c == '.' && d.isDigit) then phrase "literal_type" number
  else if c == '-' || c == '+' then
    phrase "literal_type" (phrase "unary_expression" (seq [mark (String.ofList [c]), number]))
  else if c == '*' then phrase "existential_type" (mark "*")
  else if w == "typeof" then typeQuery r
  else if w == "this" then phrase "this_type" (word "this")
  else if w == "import" then
    seq [word "import", mark "(", r .expression, mark ")",
      many (seq [mark ".", anyWord (.phrase "type_identifier")]), opt (typeArguments r)]
  else if ["true", "false", "null", "void", "undefined"].contains w then
    phrase "literal_type" (word w)
  else if w == "unique" then
    phrase "predefined_type" (seq [word "unique", word "symbol"]) <|> typeName r
  else typeName r

/-- A type with array and look-up suffixes. -/
def suffixedType : Reader Pieces := do
  let base ← primaryType r
  let suffixes ← many (do
    check (!(← newlineAhead))
    seq [mark "[", opt (r .type), mark "]"])
  if suffixes.isEmpty then return base else wrap (.phrase "array_type") (base ++ suffixes)

/-- A type with operators in front. -/
def operatorType : Reader Pieces := do
  let w ← peekWord
  let prefixed := fun (kind : String) => phrase kind (seq [word w, many (do
      let v ← peekWord
      check (["keyof", "readonly"].contains v)
      word v), suffixedType r])
  if w == "keyof" then prefixed "index_type_query" <|> suffixedType r
  else if w == "readonly" then prefixed "readonly_type" <|> suffixedType r
  else if w == "infer" then
    phrase "infer_type" (seq [word "infer", name (.phrase "type_identifier"),
      opt (do
        let a ← seq [word "extends", r .type]
        check ((← peekOperator) != "?")
        return a)]) <|> suffixedType r
  else suffixedType r

/-- Types joined by bars and ampersands. -/
def joinedType : Reader Pieces := do
  let sign := op "|" <|> op "&"
  let parts ← seq [opt sign, operatorType r, many (seq [sign, operatorType r])]
  if parts.length ≤ 1 then return parts else wrap (.phrase "union_type") parts

/-- A joined type, possibly the test of a conditional type. -/
def conditionalType : Reader Pieces := do
  let base ← joinedType r
  (do
    let rest ← seq [word "extends", r .type, op "?", r .type, op ":", r .type]
    wrap (.phrase "conditional_type") (base ++ rest)) <|> pure base

/-- Any type. -/
def type : Reader Pieces := do
  let (c, _) ← peek
  let w ← peekWord
  if c == '(' || c == '<' then functionType r <|> conditionalType r
  else if w == "new" || w == "abstract" then
    phrase "constructor_type" (seq [opt (word "abstract"), word "new", opt (typeParameters r),
      r .parameters, op "=>", r .type]) <|> conditionalType r
  else conditionalType r

end ReactMigration.TypeScript.Reader
