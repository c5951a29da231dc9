import ReactMigration.Text.Pattern
import ReactMigration.TypeScript.Parse

/-!
Type erasure: the text without what only the type checker reads.

`typeRanges` lists the stretches of the text to remove, from the tree; `cut` removes them.  All
other characters stay in place and in order.
-/

namespace ReactMigration.TypeScript

/-- A stretch of text, from its first character up to but not including `stop`. -/
structure Range where
  start : Nat
  stop : Nat
  deriving Repr, DecidableEq

/-- The whole stretch of a node. -/
def Node.range (n : Node) : Range :=
  ⟨n.start, n.stop⟩

/-- Nodes that hold nothing but types. -/
def isTypePart (k : Kind) : Bool :=
  k == .typeClause || k == .typeArguments || k == .typeParameters || k == .implementsClause

/-- Declarations that exist only for the type checker. -/
def isTypeDeclaration (k : Kind) : Bool :=
  k == .interfaceDeclaration || k == .typeAliasDeclaration

/-- Expressions with a type after their operand. -/
def isCast (k : Kind) : Bool :=
  k == .asExpression || k == .satisfiesExpression

/-- The stretch after the operand of a cast. -/
def castTail (cs : List Node) (stop : Nat) : List Range :=
  match cs.find? (·.kind.isNamed) with
  | some operand => [⟨operand.stop, stop⟩]
  | none => []

mutual

/-- The stretches of a node that only the type checker reads; `outer` is the enclosing export, if
the node stands directly in one. -/
def typeRanges (outer : Option Range) : Node → List Range
  | .mk k _ s t cs =>
      if isTypePart k then [⟨s, t⟩]
      else if isTypeDeclaration k then [outer.getD ⟨s, t⟩]
      else if k == .importStatement && cs.any (·.kind == .token "type") then [⟨s, t⟩]
      else if isCast k && cs.any (·.kind.isNamed) then operandRanges cs ++ castTail cs t
      else if k == .nonNullExpression then tokenRanges "!" cs
      else if k == .optionalParameter then tokenRanges "?" cs
      else childRanges (if k == .exportStatement then some ⟨s, t⟩ else none) cs

/-- The stretches of all children. -/
def childRanges (outer : Option Range) : List Node → List Range
  | [] => []
  | c :: cs => typeRanges outer c ++ childRanges outer cs

/-- The stretches of the first phrase among the children. -/
def operandRanges : List Node → List Range
  | [] => []
  | c :: cs => if c.kind.isNamed then typeRanges none c else operandRanges cs

/-- The stretches of the children, a given token being one of them. -/
def tokenRanges (text : String) : List Node → List Range
  | [] => []
  | c :: cs =>
      (if c.kind == .token text then [c.range] else typeRanges none c) ++ tokenRanges text cs

end

/-- Orders stretches by their first characters, then by their ends. -/
def Range.before (a b : Range) : Bool :=
  a.start < b.start || (a.start == b.start && a.stop ≤ b.stop)

/-- Copies the text without ordered stretches, `place` being how far it has come. -/
def cutFrom (place : Nat) (cs : List Char) : List Range → List Char
  | [] => cs
  | ⟨start, stop⟩ :: rest =>
      let start := max start place
      if stop ≤ start then cutFrom place cs rest
      else cs.take (start - place) ++ cutFrom stop (cs.drop (stop - place)) rest

/-- The text without the given stretches. -/
def cut (cs : List Char) (ranges : List Range) : List Char :=
  cutFrom 0 cs (ranges.mergeSort Range.before)

/-- Three or more line ends in a row. -/
def blankRun : Text.Pattern :=
  .many (· == '\n') 3 true

/-- The text without types, with no runs of blank lines, ending in one line end. -/
def eraseTypes (s : String) : String :=
  let erased := String.ofList (cut s.toList (typeRanges none (parse s true)))
  Text.trim (blankRun.replace "\n\n" erased) ++ "\n"

end ReactMigration.TypeScript
