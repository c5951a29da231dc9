import ReactMigration.Text.Basic

/-!
Concrete syntax trees of TypeScript text.

A tree covers a stretch of the text; every token is a leaf, so what lies between two neighbouring
children is white space and comments only.
-/

namespace ReactMigration.TypeScript

/-- What a node is. -/
inductive Kind where
  /-- A keyword or punctuation mark. -/
  | token (text : String)
  | comment
  | error
  | program
  | exportStatement
  | importStatement
  | importClause
  | namespaceImport
  | namedImports
  | importSpecifier
  | classDeclaration
  | abstractClassDeclaration
  | interfaceDeclaration
  | typeAliasDeclaration
  | enumDeclaration
  | lexicalDeclaration
  | variableDeclaration
  | variableDeclarator
  | decorator
  | methodDefinition
  | fieldDefinition
  | accessibilityModifier
  | requiredParameter
  | optionalParameter
  | typeClause
  | typeArguments
  | typeParameters
  | implementsClause
  | identifier
  | callExpression
  | asExpression
  | satisfiesExpression
  | nonNullExpression
  | parenthesized
  | object
  | pair
  | shorthandProperty
  | array
  | string
  | templateString
  | number
  | true
  | false
  | null
  /-- Any other phrase, by its name. -/
  | phrase (name : String)
  deriving Repr, DecidableEq, Inhabited

/-- The name of a kind. -/
def Kind.name : Kind → String
  | .token text => text
  | .comment => "comment"
  | .error => "ERROR"
  | .program => "program"
  | .exportStatement => "export_statement"
  | .importStatement => "import_statement"
  | .importClause => "import_clause"
  | .namespaceImport => "namespace_import"
  | .namedImports => "named_imports"
  | .importSpecifier => "import_specifier"
  | .classDeclaration => "class_declaration"
  | .abstractClassDeclaration => "abstract_class_declaration"
  | .interfaceDeclaration => "interface_declaration"
  | .typeAliasDeclaration => "type_alias_declaration"
  | .enumDeclaration => "enum_declaration"
  | .lexicalDeclaration => "lexical_declaration"
  | .variableDeclaration => "variable_declaration"
  | .variableDeclarator => "variable_declarator"
  | .decorator => "decorator"
  | .methodDefinition => "method_definition"
  | .fieldDefinition => "public_field_definition"
  | .accessibilityModifier => "accessibility_modifier"
  | .requiredParameter => "required_parameter"
  | .optionalParameter => "optional_parameter"
  | .typeClause => "type_annotation"
  | .typeArguments => "type_arguments"
  | .typeParameters => "type_parameters"
  | .implementsClause => "implements_clause"
  | .identifier => "identifier"
  | .callExpression => "call_expression"
  | .asExpression => "as_expression"
  | .satisfiesExpression => "satisfies_expression"
  | .nonNullExpression => "non_null_expression"
  | .parenthesized => "parenthesized_expression"
  | .object => "object"
  | .pair => "pair"
  | .shorthandProperty => "shorthand_property_identifier"
  | .array => "array"
  | .string => "string"
  | .templateString => "template_string"
  | .number => "number"
  | .true => "true"
  | .false => "false"
  | .null => "null"
  | .phrase name => name

/-- Whether nodes of a kind are phrases rather than bare tokens. -/
def Kind.isNamed : Kind → Bool
  | .token _ => Bool.false
  | _ => Bool.true

/-- What a node is to its parent. -/
inductive Role where
  | none
  | name
  | value
  | type
  | parameters
  | returnType
  | body
  | key
  | function
  | arguments
  | source
  | newName
  | pattern
  deriving Repr, DecidableEq, Inhabited

/-- A node: the stretch of text from `start` up to `stop`, and its children in order. -/
inductive Node where
  | mk (kind : Kind) (role : Role) (start stop : Nat) (children : List Node)
  deriving Repr, Inhabited

namespace Node

/-- What the node is. -/
def kind : Node → Kind
  | .mk k _ _ _ _ => k

/-- The part it plays in its parent. -/
def role : Node → Role
  | .mk _ r _ _ _ => r

/-- The place of its first character. -/
def start : Node → Nat
  | .mk _ _ s _ _ => s

/-- The place after its last character. -/
def stop : Node → Nat
  | .mk _ _ _ s _ => s

/-- Its children in order. -/
def children : Node → List Node
  | .mk _ _ _ _ cs => cs

/-- The same node in another role. -/
def withRole (r : Role) : Node → Node
  | .mk k _ s t cs => .mk k r s t cs

/-- The children that are phrases. -/
def namedChildren (n : Node) : List Node :=
  n.children.filter (·.kind.isNamed)

/-- The first child in a role. -/
def inRole? (n : Node) (r : Role) : Option Node :=
  n.children.find? (·.role == r)

/-- The first child of one of the kinds. -/
def childOf? (n : Node) (kinds : List Kind) : Option Node :=
  n.children.find? fun c => kinds.contains c.kind

/-- The children of a kind. -/
def childrenOf (n : Node) (kind : Kind) : List Node :=
  n.children.filter (·.kind == kind)

/-- Whether a token is a direct child. -/
def hasToken (n : Node) (text : String) : Bool :=
  n.children.any (·.kind == .token text)

mutual

/-- Whether some part of the node could not be read. -/
def hasError : Node → Bool
  | .mk k _ _ _ cs => k == .error || anyError cs

/-- Whether one of several nodes holds an error. -/
def anyError : List Node → Bool
  | [] => Bool.false
  | c :: cs => hasError c || anyError cs

end

end Node

/-- A text with its characters at hand. -/
structure Source where
  chars : List Char
  deriving Inhabited

/-- A text with its characters ready for look-up. -/
def Source.ofString (s : String) : Source :=
  ⟨s.toList⟩

/-- The text of a node. -/
def Source.text (s : Source) (n : Node) : String :=
  String.ofList (Text.slice s.chars n.start n.stop)

/-- The line of an offset, from zero. -/
def Source.row (s : Source) (offset : Nat) : Nat :=
  (s.chars.take offset).count '\n'

/-- The column of an offset in bytes of UTF-8, from zero. -/
def Source.column (s : Source) (offset : Nat) : Nat :=
  ((s.chars.take offset).reverse.takeWhile (· != '\n')).foldl (fun n c => n + c.utf8Size) 0

end ReactMigration.TypeScript
