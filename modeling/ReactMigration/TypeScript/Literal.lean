import ReactMigration.TypeScript.Reader

/-!
Literals: strings, numbers, regular expressions and template strings.
-/

namespace ReactMigration.TypeScript.Reader

/-- The offset after a quoted string whose opening quote is skipped; nothing at a line end. -/
def stringEnd? (e : Env) (quote : Char) (multiline : Bool) : Nat → Nat → Option Nat
  | 0, _ => none
  | fuel + 1, i =>
      if e.chars.size ≤ i then none
      else if e.at i == quote then some (i + 1)
      else if e.at i == '\\' && !multiline then stringEnd? e quote multiline fuel (i + 2)
      else if (e.at i == '\n' || e.at i == '\r') && !multiline then none
      else stringEnd? e quote multiline fuel (i + 1)

/-- A quoted string. -/
def string (multiline : Bool) : Reader Pieces := do
  let e ← read
  let i ← here
  let q := e.at i
  check (q == '\'' || q == '"')
  match stringEnd? e q multiline (e.chars.size + 1) (i + 1) with
  | some j => leaf .string j
  | none => fail

/-- The offset after the characters that satisfy `p`. -/
def spanEnd (e : Env) (p : Char → Bool) : Nat → Nat → Nat
  | 0, i => i
  | fuel + 1, i => if i < e.chars.size && p (e.at i) then spanEnd e p fuel (i + 1) else i

/-- The offset after an exponent, if there is one. -/
def exponentEnd (e : Env) (i : Nat) : Nat :=
  if e.at i == 'e' || e.at i == 'E' then
    let j := if e.at (i + 1) == '+' || e.at (i + 1) == '-' then i + 2 else i + 1
    if (e.at j).isDigit then spanEnd e (fun c => c.isDigit || c == '_') e.chars.size j else i
  else i

/-- A number of any radix, with digit separators and an optional big-integer mark. -/
def number : Reader Pieces := do
  let e ← read
  let i ← here
  let digit := fun c : Char => c.isDigit || c == '_'
  let n := e.chars.size
  check ((e.at i).isDigit || (e.at i == '.' && (e.at (i + 1)).isDigit))
  let radix := e.at i == '0' && "xXoObB".toList.contains (e.at (i + 1))
  if radix then leaf .number (spanEnd e (fun c => c.isAlphanum || c == '_') n (i + 2))
  else
    let j := spanEnd e digit n i
    if e.at j == 'n' then leaf .number (j + 1)
    else
      let j := if e.at j == '.' then spanEnd e digit n (j + 1) else j
      leaf .number (exponentEnd e j)

/-- The offset after a regular expression's closing slash. -/
def regexEnd? (e : Env) : Nat → Bool → Nat → Option Nat
  | 0, _, _ => none
  | fuel + 1, inClass, i =>
      let c := e.at i
      if e.chars.size ≤ i || isNewline c || c == '\r' then none
      else if c == '\\' then regexEnd? e fuel inClass (i + 2)
      else if inClass then regexEnd? e fuel (c != ']') (i + 1)
      else if c == '/' then some (i + 1)
      else regexEnd? e fuel (c == '[') (i + 1)

/-- A regular expression with its flags. -/
def regex : Reader Pieces := do
  let e ← read
  let i ← here
  check (e.at i == '/' && e.at (i + 1) != '/' && e.at (i + 1) != '*')
  match regexEnd? e (e.chars.size + 1) false (i + 1) with
  | some j => leaf (.phrase "regex") (spanEnd e (fun c => 'a' ≤ c && c ≤ 'z') e.chars.size j)
  | none => fail

/-- The offset where plain template text ends. -/
def fragmentEnd (e : Env) : Nat → Nat → Nat
  | 0, i => i
  | fuel + 1, i =>
      if e.chars.size ≤ i || e.at i == '\x60' || e.at i == '\\' then i
      else if e.at i == '$' && e.at (i + 1) == '\x7b' then i
      else fragmentEnd e fuel (i + 1)

/-- The parts of a template after its opening backtick, up to and including the closing one. -/
def templateParts (substitution : Reader Pieces) (e : Env) :
    Nat → Pieces → Nat → Option (Pieces × Nat)
  | 0, _, _ => none
  | fuel + 1, done, i =>
      let c := e.at i
      if e.chars.size ≤ i then none
      else if c == '\x60' then some (done ++ [.mk (.token "\x60") .none i (i + 1) []], i + 1)
      else if c == '\\' then
        let part := .mk (.phrase "escape_sequence") .none i (i + 2) []
        templateParts substitution e fuel (done ++ [part]) (i + 2)
      else if c == '$' && e.at (i + 1) == '\x7b' then
        match substitution e i with
        | some (ns, j) => if i < j then templateParts substitution e fuel (done ++ ns) j else none
        | none => none
      else
        let j := fragmentEnd e e.chars.size (i + 1)
        templateParts substitution e fuel (done ++ [.mk (.phrase "string_fragment") .none i j []]) j

/-- A template string; `inner` reads a substituted phrase. -/
def template (kind : Kind) (inner : Reader Pieces) : Reader Pieces := do
  let e ← read
  let i ← here
  check (e.at i == '\x60')
  let substitution := phrase "template_substitution" (seq [mark "$\x7b", inner, mark "\x7d"])
  let first : Node := .mk (.token "\x60") .none i (i + 1) []
  match templateParts substitution e (e.chars.size + 1) [first] (i + 1) with
  | some (parts, j) =>
      set j
      wrap kind parts
  | none => fail

/-- A name of an object's or class's member. -/
def propertyName (inner : Reader Pieces) : Reader Pieces := do
  let (c, _) ← peek
  if c == '[' then phrase "computed_property_name" (seq [mark "[", inner, mark "]"])
  else if c == '\'' || c == '"' then string false
  else if c == '#' then
    let _ ← mark "#"
    let stop ← here
    let ns ← anyWord (.phrase "private_property_identifier")
    return ns.map fun n => .mk n.kind .none (stop - 1) n.stop []
  else if c.isDigit || c == '.' then number
  else anyWord (.phrase "property_identifier")

end ReactMigration.TypeScript.Reader
