import ReactMigration.TypeScript.Expressions

/-!
Classes, declarations and statements.
-/

namespace ReactMigration.TypeScript.Reader

variable (r : Rules)

/-! ### Classes -/

/-- The base class and the implemented interfaces. -/
def heritage : Reader Pieces := do
  let base := phrase "extends_clause" (seq [word "extends", sepBy1 (seq [
    inRole .value (do suffixes r true (← primary r false)), opt (typeArguments r)]) (mark ",")])
  let interfaces : Reader Pieces := do
    wrap .implementsClause (← seq [word "implements", sepBy1 (r .type) (mark ",")])
  let parts ← seq [opt base, opt interfaces]
  check (!parts.isEmpty)
  wrap (.phrase "class_heritage") parts

/-- A member of a class that a semicolon or line end closes, or a method with its body. -/
def classMember : Reader Pieces := do
  let starts := fun c => isNameStart c || c.isDigit || "['\"#*".toList.contains c
  let decorators ← many (r .decorator)
  let modifiers ← many (modifier ["public", "private", "protected", "static", "override",
    "readonly", "abstract", "declare", "accessor", "async", "get", "set"] starts)
  let star ← opt (mark "*")
  let isAbstract := modifiers.any (·.kind == .token "abstract")
  let front := modifiers ++ star
  let close : Reader Pieces := mark "," <|> semicolon
  let index : Reader Pieces := do
    let body ← seq [mark "[", inRole .name (name .identifier), mark ":", r .type, mark "]",
      typeClause r]
    return decorators ++ (← wrap (.phrase "index_signature") (front ++ body)) ++ (← close)
  let rest : Reader Pieces := do
    let key ← inRole .name (propertyName (r .expression))
    let mark? ← opt (mark "?" <|> (do
      check ((← peekOperator) == "!")
      mark "!"))
    let (c, _) ← peek
    if c == '(' || c == '<' then
      let signature ← callSignature r
      let front := front ++ key ++ mark? ++ signature
      if (← peek).1 == '\x7b' && !isAbstract then
        let body ← inRole .body (r .block)
        let method ← wrap .methodDefinition (front ++ body)
        let stop ← opt (mark ";")
        return decorators ++ method ++ stop
      else
        let kind := if isAbstract then "abstract_method_signature" else "method_signature"
        return decorators ++ (← wrap (.phrase kind) front) ++ (← close)
    else
      let back ← seq [opt (inRole .type (typeClause r)), opt (initializer r)]
      return (← wrap .fieldDefinition (decorators ++ front ++ key ++ mark? ++ back)) ++ (← close)
  index <|> rest

/-- The body of a class. -/
def classBody : Reader Pieces :=
  phrase "class_body" (seq [mark "\x7b", many (firstOf [mark ";",
    phrase "class_static_block" (seq [word "static", r .block]), r (.member true)]), mark "\x7d"])

/-- What follows a class's name. -/
def classTail : Reader Pieces :=
  seq [opt (typeParameters r), opt (heritage r), inRole .body (classBody r)]

/-- A class declaration, whose decorators may already be read. -/
def classDeclaration : Reader Pieces := do
  let decorators ← many (r .decorator)
  let isAbstract ← opt (word "abstract")
  let rest ← seq [word "class", inRole .name (name (.phrase "type_identifier")), r .classTail]
  wrap (if isAbstract.isEmpty then .classDeclaration else .abstractClassDeclaration)
    (decorators ++ isAbstract ++ rest)

/-! ### Declarations -/

/-- One declared variable. -/
def declarator (noIn : Bool) : Reader Pieces := do
  let parts ← seq [inRole .name (r .pattern), opt (do
      check ((← peekOperator) == "!")
      mark "!"),
    opt (inRole .type (typeClause r)),
    opt (seq [op "=", inRole .value (r (.assignment noIn false))])]
  wrap .variableDeclarator parts

/-- The words that declare variables, if one stands here. -/
def declaresVariables : Reader String := do
  let w ← peekWord
  check (w == "let" || w == "const" || w == "var")
  let after : Reader (Char × Char) := do
    let _ ← word w
    peek
  let (c, _) ← after
  check (isNameStart c || c == '[' || c == '\x7b')
  return w

/-- A declaration of variables without its end. -/
def variableList (noIn : Bool) : Reader (String × Pieces) := do
  let e ← read
  let i ← get
  match declaresVariables e i with
  | none => fail
  | some (w, _) =>
      let parts ← seq [word w, sepBy1 (declarator r noIn) (mark ",")]
      return (w, parts)

/-- The kind of a variable declaration. -/
def variableKind (w : String) : Kind :=
  if w == "var" then .variableDeclaration else .lexicalDeclaration

/-- A declaration of variables. -/
def variableDeclaration : Reader Pieces := do
  let (w, parts) ← variableList r false
  wrap (variableKind w) (parts ++ (← semicolon))

/-- A function, or the signature of one. -/
def functionDeclaration : Reader Pieces := do
  let sync ← opt (do
    let w ← word "async"
    check (!(← newlineAhead))
    return w)
  let sign ← word "function"
  let star ← opt (mark "*")
  let rest ← seq [inRole .name (name .identifier), callSignature r]
  let front := sync ++ sign ++ star ++ rest
  if (← peek).1 == '\x7b' then
    let body ← inRole .body (r .block)
    wrap (.phrase (if star.isEmpty then "function_declaration" else "generator_function_declaration"))
      (front ++ body)
  else wrap (.phrase "function_signature") (front ++ (← semicolon))

/-- An interface. -/
def interfaceDeclaration : Reader Pieces := do
  let parts ← seq [word "interface", inRole .name (name (.phrase "type_identifier")),
    opt (typeParameters r),
    opt (phrase "extends_type_clause" (seq [word "extends", sepBy1 (r .type) (mark ",")])),
    inRole .body (objectType r)]
  wrap .interfaceDeclaration parts

/-- A type alias. -/
def typeAlias : Reader Pieces := do
  let parts ← seq [word "type", inRole .name (name (.phrase "type_identifier")),
    opt (typeParameters r), op "=", inRole .value (r .type), semicolon]
  wrap .typeAliasDeclaration parts

/-- An enumeration. -/
def enumDeclaration : Reader Pieces := do
  let entry : Reader Pieces := do
    let key ← inRole .name (propertyName (r .expression))
    (do wrap (.phrase "enum_assignment") (key ++ (← initializer r))) <|> pure key
  let body := phrase "enum_body" (seq [mark "\x7b", listOf entry (mark ","), mark "\x7d"])
  let parts ← seq [opt (word "const"), word "enum", inRole .name (name .identifier),
    inRole .body body]
  wrap .enumDeclaration parts

/-- A dotted name or a string. -/
def moduleName : Reader Pieces :=
  string false <|> phrase "nested_identifier" (sepBy1 (name .identifier) (mark "."))

/-- A namespace. -/
def namespaceDeclaration : Reader Pieces := do
  let w ← peekWord
  check (w == "namespace" || w == "module")
  let parts ← seq [word w, inRole .name moduleName]
  let body ← opt (inRole .body (r .block))
  if w == "module" then
    check (!body.isEmpty || (← follows semicolon))
    wrap (.phrase "module") (parts ++ body)
  else
    check (!body.isEmpty)
    wrap (.phrase "expression_statement") (← wrap (.phrase "internal_module") (parts ++ body))

/-- An alias for an imported name. -/
def importAlias : Reader Pieces :=
  phrase "import_alias" (seq [word "import", name .identifier, op "=",
    sepBy1 (anyWord .identifier) (mark "."), semicolon])

/-- A declaration without an implementation. -/
def ambientDeclaration : Reader Pieces := do
  let sign ← word "declare"
  check (!(← newlineAhead))
  let body ← firstOf [
    seq [word "global", r .block],
    do
      check (["class", "abstract", "function", "async", "interface", "type", "enum", "const", "let",
        "var", "namespace", "module", "import"].contains (← peekWord))
      r .statement]
  wrap (.phrase "ambient_declaration") (sign ++ body)

/-- A declaration. -/
def declaration : Reader Pieces := do
  let w ← peekWord
  let c := (← peek).1
  if c == '@' || w == "class" || w == "abstract" then classDeclaration r
  else if w == "function" then functionDeclaration r
  else if w == "async" then functionDeclaration r
  else if w == "interface" then interfaceDeclaration r
  else if w == "type" then typeAlias r
  else if w == "enum" then enumDeclaration r
  else if w == "const" then enumDeclaration r <|> variableDeclaration r
  else if w == "let" || w == "var" then variableDeclaration r
  else if w == "namespace" || w == "module" then namespaceDeclaration r
  else if w == "declare" then ambientDeclaration r
  else if w == "import" then importAlias
  else fail

/-! ### Imports and exports -/

/-- The module an import or export refers to. -/
def fromClause : Reader Pieces :=
  seq [word "from", inRole .source (string false)]

/-- A name on either side of `as`. -/
def exportedName : Reader Pieces :=
  string false <|> anyWord .identifier

/-- One imported name. -/
def importSpecifier : Reader Pieces := do
  let aliased := seq [inRole .name exportedName, word "as", inRole .newName (name .identifier)]
  let plain := inRole .name (name .identifier)
  let parts ← firstOf [
    seq [word "type", aliased],
    do
      let a ← aliased
      check (← follows (mark "," <|> mark "\x7d"))
      return a,
    seq [word "type", plain],
    seq [word "typeof", plain],
    plain]
  wrap .importSpecifier parts

/-- What an import binds. -/
def importClause : Reader Pieces := do
  let whole : Reader Pieces := do
    wrap .namespaceImport (← seq [mark "*", word "as", name .identifier])
  let named : Reader Pieces := do
    wrap .namedImports (← seq [mark "\x7b", listOf importSpecifier (mark ","), mark "\x7d"])
  let parts ← firstOf [whole, named,
    seq [name .identifier, opt (seq [mark ",", whole <|> named])]]
  wrap .importClause parts

/-- Attributes of an import. -/
def importAttributes : Reader Pieces :=
  phrase "import_attribute" (seq [word "with" <|> word "assert", object r])

/-- An import. -/
def importStatement : Reader Pieces := do
  let bound := seq [importClause, fromClause]
  let required := phrase "import_require_clause" (seq [name .identifier, op "=", word "require",
    mark "(", inRole .source (string false), mark ")"])
  let parts ← seq [word "import", firstOf [
      seq [word "type" <|> word "typeof", firstOf [required, bound]],
      required, bound, inRole .source (string false)],
    opt (importAttributes r), semicolon]
  wrap .importStatement parts

/-- The names of an export. -/
def exportClause : Reader Pieces :=
  let specifier := phrase "export_specifier" (firstOf [
    do
      let a ← seq [opt (do
          let t ← word "type"
          check (!(← follows (word "as")) && !(← follows (mark ",")) && !(← follows (mark "\x7d")))
          return t), inRole .name exportedName, opt (seq [word "as", inRole .newName exportedName])]
      return a])
  phrase "export_clause" (seq [mark "\x7b", listOf specifier (mark ","), mark "\x7d"])

/-- An export. -/
def exportStatement : Reader Pieces := do
  let decorators ← many (r .decorator)
  let sign ← word "export"
  let rest ← firstOf [
    seq [word "type", exportClause, opt fromClause, semicolon],
    seq [mark "*", opt (seq [word "as", exportedName]), fromClause, opt (importAttributes r),
      semicolon],
    seq [exportClause, opt (seq [fromClause, opt (importAttributes r)]), semicolon],
    seq [op "=", r .expression, semicolon],
    seq [word "as", word "namespace", name .identifier, semicolon],
    seq [word "default", firstOf [
      declaration r, seq [inRole .value (r .expression), semicolon]]],
    declaration r]
  wrap .exportStatement (decorators ++ sign ++ rest)

/-! ### Statements -/

/-- Statements between braces. -/
def block : Reader Pieces :=
  phrase "statement_block" (seq [mark "\x7b", many (r .statement), mark "\x7d"])

/-- An expression between parentheses. -/
def condition : Reader Pieces := do
  wrap .parenthesized (← seq [mark "(", r .expression, mark ")"])

/-- The head of a loop over a collection. -/
def collectionHead : Reader Pieces := do
  let target : Reader Pieces := firstOf [
    do
      let w ← peekWord
      check (["let", "const", "var", "using"].contains w)
      seq [word w, r .pattern, opt (typeClause r)],
    do suffixes r true (← primary r false)]
  seq [target, word "of" <|> word "in", r .expression]

/-- The head of a counting loop. -/
def countingHead : Reader Pieces := do
  let first := firstOf [
    do
      let (w, parts) ← variableList r true
      wrap (variableKind w) (parts ++ (← mark ";")),
    phrase "expression_statement" (seq [r .expression, mark ";"]),
    phrase "empty_statement" (mark ";")]
  let second := phrase "expression_statement" (seq [r .expression, mark ";"]) <|>
    phrase "empty_statement" (mark ";")
  seq [first, second, opt (r .expression)]

/-- A loop. -/
def forStatement : Reader Pieces := do
  let front ← seq [word "for", opt (word "await"), mark "("]
  (do
    let rest ← seq [collectionHead r, mark ")", inRole .body (r .statement)]
    wrap (.phrase "for_in_statement") (front ++ rest)) <|> (do
    let rest ← seq [countingHead r, mark ")", inRole .body (r .statement)]
    wrap (.phrase "for_statement") (front ++ rest))

/-- A choice of statements. -/
def switchStatement : Reader Pieces :=
  let case := firstOf [
    phrase "switch_case" (seq [word "case", r .expression, mark ":", many (r .statement)]),
    phrase "switch_default" (seq [word "default", mark ":", many (r .statement)])]
  phrase "switch_statement" (seq [word "switch", condition r,
    phrase "switch_body" (seq [mark "\x7b", many case, mark "\x7d"])])

/-- A guarded block. -/
def tryStatement : Reader Pieces :=
  phrase "try_statement" (seq [word "try", r .block,
    opt (phrase "catch_clause" (seq [word "catch",
      opt (seq [mark "(", r .pattern, opt (inRole .type (typeClause r)), mark ")"]),
      r .block])),
    opt (phrase "finally_clause" (seq [word "finally", r .block]))])

/-- A jump with an optional target. -/
def jump (kind w : String) (target : Reader Pieces) : Reader Pieces :=
  phrase kind (seq [word w, opt (do
    check (!(← newlineAhead))
    target), semicolon])

/-- A statement that starts with a keyword of its own. -/
def keywordStatement (w : String) : Reader Pieces :=
  match w with
  | "if" => phrase "if_statement" (seq [word "if", condition r, r .statement,
      opt (phrase "else_clause" (seq [word "else", r .statement]))])
  | "for" => forStatement r
  | "while" => phrase "while_statement" (seq [word "while", condition r, r .statement])
  | "do" => phrase "do_statement" (seq [word "do", r .statement, word "while", condition r,
      opt semicolon])
  | "switch" => switchStatement r
  | "try" => tryStatement r
  | "return" => jump "return_statement" "return" (r .expression)
  | "throw" => jump "throw_statement" "throw" (r .expression)
  | "break" => jump "break_statement" "break" (name (.phrase "statement_identifier"))
  | "continue" => jump "continue_statement" "continue" (name (.phrase "statement_identifier"))
  | "debugger" => phrase "debugger_statement" (seq [word "debugger", semicolon])
  | "with" => phrase "with_statement" (seq [word "with", condition r, r .statement])
  | _ => fail

/-- An expression as a statement; at a brace stands a block instead. -/
def expressionStatement : Reader Pieces := do
  check ((← peek).1 != '\x7b')
  phrase "expression_statement" (seq [r .expression, semicolon])

/-- A statement with a label. -/
def labeledStatement : Reader Pieces :=
  phrase "labeled_statement" (seq [name (.phrase "statement_identifier"), mark ":", r .statement])

/-- Any statement. -/
def statement : Reader Pieces := do
  let (c, _) ← peek
  let w ← peekWord
  if c == '\x7b' then r .block
  else if c == ';' then phrase "empty_statement" (mark ";")
  else if c == '@' then exportStatement r <|> classDeclaration r <|> expressionStatement r
  else if w == "export" then exportStatement r
  else if w == "import" then importStatement r <|> importAlias <|> expressionStatement r
  else firstOf [keywordStatement r w, declaration r, labeledStatement r, expressionStatement r]

end ReactMigration.TypeScript.Reader
