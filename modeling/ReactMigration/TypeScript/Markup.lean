import ReactMigration.TypeScript.Binding

/-!
Markup elements inside expressions.
-/

namespace ReactMigration.TypeScript.Reader

variable (r : Rules)

/-- A character of an element's or attribute's name. -/
def isTagChar (c : Char) : Bool :=
  isNamePart c || c == '-' || c == '.' || c == ':'

/-- The name of an element or attribute. -/
def tagName : Reader Pieces := do
  let e ← read
  let i ← here
  check (isNameStart (e.at i))
  leaf .identifier (spanEnd e isTagChar e.chars.size i)

/-- An expression between braces, possibly empty. -/
def embedded : Reader Pieces :=
  phrase "jsx_expression" (seq [mark "\x7b", opt (firstOf [
    phrase "spread_element" (seq [op "...", r (.assignment false false)]), r .expression]),
    mark "\x7d"])

/-- An attribute of an element. -/
def tagAttribute : Reader Pieces := do
  let (c, _) ← peek
  if c == '\x7b' then embedded r
  else
    let value := firstOf [string true, embedded r, r .element]
    phrase "jsx_attribute" (seq [tagName, opt (seq [mark "=", value])])

/-- Text between markup, up to the next brace or angle bracket. -/
def markupText : Reader Pieces := do
  let e ← read
  let i ← get
  let j := spanEnd e (fun c => c != '\x7b' && c != '<') e.chars.size i
  check (i < j)
  set j
  return [.mk (.phrase "jsx_text") .none i j []]

/-- What stands inside an element. -/
def markupChild : Reader Pieces := do
  let e ← read
  let i ← get
  if e.at i == '\x7b' then embedded r
  else if e.at i == '<' then
    check (e.at (i + 1) != '/')
    r .element
  else markupText

/-- An element or a fragment. -/
def element : Reader Pieces := do
  let _ ← check (← read).markup
  let opening ← seq [mark "<", opt (do
    let n ← tagName
    let args ← opt (typeArguments r)
    return n ++ args), many (tagAttribute r)]
  (do
    let close ← seq [mark "/", mark ">"]
    wrap (.phrase "jsx_self_closing_element") (opening ++ close)) <|> (do
    let rest ← seq [mark ">", many (markupChild r), mark "<", mark "/", opt tagName, mark ">"]
    wrap (.phrase "jsx_element") (opening ++ rest))

end ReactMigration.TypeScript.Reader
