import ReactMigration.TypeScript.Statements

/-!
Whole texts: the rules tied together, recovery at the top level, and comments put into the tree.
-/

namespace ReactMigration.TypeScript

namespace Reader

/-- Every rule in terms of the others. -/
def rule (r : Rules) : Goal → Reader Pieces
  | .type => type r
  | .expression => expression r
  | .assignment noIn noArrowType => assignment r noIn noArrowType
  | .unary noArrowType => unary r noArrowType
  | .constructor => constructorOperand r
  | .pattern => pattern r
  | .parameters => parameters r
  | .block => block r
  | .statement => statement r
  | .decorator => decorator r
  | .classTail => classTail r
  | .member inClass => if inClass then classMember r else objectMember r
  | .element => element r

/-- The rules, nested at most `fuel` deep. -/
def rules : Nat → Rules
  | 0, _ => fail
  | fuel + 1, g => rule (rules fuel) g

/-- A nesting depth that no text of the given length exceeds. -/
def depthFor (size : Nat) : Nat :=
  16 * size + 64

/-- What could not be read, up to the end of its line. -/
def skipLine : Reader Pieces := do
  let e ← read
  let i ← here
  check (i < e.chars.size)
  let j := max (i + 1) (lineCommentEnd e e.chars.size i)
  set j
  return [.mk .error .none i j []]

/-- A first line that names an interpreter. -/
def hashBang : Reader Pieces := do
  let e ← read
  check (e.at 0 == '#' && e.at 1 == '!')
  leaf (.phrase "hash_bang_line") (lineCommentEnd e e.chars.size 0)

/-- The statements of a whole text. -/
def statements : Reader Pieces := do
  let r := rules (depthFor (← read).chars.size)
  seq [opt hashBang, many (statement r <|> skipLine)]

end Reader

mutual

/-- Adds the comments that stand between a node's children. -/
def Node.withComments (e : Env) : Node → Node
  | .mk k role s t cs => .mk k role s t (insertComments e s cs)

/-- Adds comments before each child, `from_` being where the previous one ended. -/
def insertComments (e : Env) (from_ : Nat) : List Node → List Node
  | [] => []
  | c :: cs =>
      commentsBetween e c.start (e.chars.size + 1) from_ ++
        (c.withComments e :: insertComments e c.stop cs)

end

/-- The tree of a text; `markup` allows markup elements in expressions. -/
def parse (s : String) (markup : Bool) : Node :=
  let e : Env := ⟨s.toList.toArray, markup⟩
  let size := e.chars.size
  match Reader.statements e 0 with
  | some (ns, _) =>
      let children := insertComments e 0 ns
      let last := (ns.getLast?.map Node.stop).getD 0
      .mk .program .none 0 size (children ++ commentsBetween e size (size + 1) last)
  | none => .mk .program .none 0 size []

/-- The tree of the given characters. -/
def parseChars (cs : List Char) (markup : Bool) : Node :=
  let e : Env := ⟨cs.toArray, markup⟩
  match Reader.statements e 0 with
  | some (ns, _) =>
      let last := (ns.getLast?.map Node.stop).getD 0
      .mk .program .none 0 e.chars.size
        (insertComments e 0 ns ++ commentsBetween e e.chars.size (e.chars.size + 1) last)
  | none => .mk .program .none 0 e.chars.size []

theorem parse_chars (s : String) (markup : Bool) : parse s markup = parseChars s.toList markup := by
  unfold parse parseChars
  rfl

end ReactMigration.TypeScript
